import InterviewPlan.Fixture.Frontmatter
import InterviewPlan.Proofs.Text.Lines
import InterviewPlan.Toml.Reader

/-!
# Fixtures as they are written

A fixture is written as lines: a delimiter, the settings, a delimiter again, and the block.  The
closing delimiter is searched for together with the line feed in front of it.  That line feed ends
the last line of the settings.  Where there are no settings it would be the one that ends the
opening delimiter, which has been dropped by then.  So a fixture reads back as it was written if it
has a line of settings, be it an empty one, and it does not if it has none.

## Main definitions

* `Fixture.Ending`: the two line endings
* `Fixture.written`: the text of a fixture, put together from its lines
* `Fixture.IsSetting`: a line that may stand between the delimiters
* `Fixture.ReadsAs`: what lines of settings are read as, however they end

## Main results

* `Fixture.splitAt?_settings`: the closing delimiter is found below the settings
* `Fixture.split_written`: the parts of a fixture are those it was written from
* `Fixture.parse_written`: the fixture that is read from what was written
* `Fixture.failsToRead_of_no_settings`: fixtures without settings
-/

namespace InterviewPlan

open Text

namespace Text

variable {part l p t rest : Text} {c : Char}

/-! ### Searching for a part of a text -/

/-- A search goes on behind the first character if the text does not begin with the part. -/
theorem splitAt?_cons (h : ¬ part <+: c :: t) :
    splitAt? part (c :: t) =
      (splitAt? part t).map fun (before, rest) => (c :: before, rest) := by
  rw [splitAt?, isPrefixOf?_eq_none h]

/-- A search passes over a text without the first character of the part. -/
theorem splitAt?_append (h : c ∉ l) (p t : Text) :
    splitAt? (c :: p) (l ++ t) =
      (splitAt? (c :: p) t).map fun (before, rest) => (l ++ before, rest) := by
  induction l with
  | nil => simp
  | cons d l ih =>
    obtain ⟨hd, hl⟩ := List.ne_and_not_mem_of_not_mem_cons h
    have hother : ¬ c :: p <+: d :: (l ++ t) := fun hbegins =>
      hd (List.cons_prefix_cons.mp hbegins).1
    rw [List.cons_append, splitAt?_cons hother, ih hl]
    cases splitAt? (c :: p) t <;> rfl

/-- A search ends where the part is. -/
theorem splitAt?_self (c : Char) (p rest : Text) :
    splitAt? (c :: p) (c :: (p ++ rest)) = some ([], rest) := by
  have hsome : (c :: p).isPrefixOf? (c :: (p ++ rest)) = some rest :=
    List.isPrefixOf?_eq_some_iff_append_eq.mpr rfl
  rw [splitAt?, hsome]

/-- A search finds nothing in a text without the part. -/
theorem splitAt?_eq_none (h : ¬ part <:+: t) : splitAt? part t = none := by
  induction t with
  | nil =>
    have hne : ¬ part.isEmpty = true := by simpa using h
    rw [splitAt?, if_neg hne]
  | cons d t ih =>
    rw [splitAt?_cons fun hbegins => h hbegins.isInfix,
      ih fun hinside => h (hinside.trans (List.suffix_cons d t).isInfix)]
    rfl

/-- What a text begins with ends before a character that it does not have. -/
theorem isPrefix_of_isPrefix_append (hc : c ∉ p) (h : p <+: l ++ c :: rest) : p <+: l := by
  rcases List.prefix_or_prefix_of_prefix h (List.prefix_append l (c :: rest)) with h' | ⟨s, rfl⟩
  · exact h'
  · rw [List.prefix_append_right_inj] at h
    cases s with
    | nil => simp
    | cons d s =>
      obtain ⟨rfl, -⟩ := List.cons_prefix_cons.mp h
      simp at hc

end Text

namespace Fixture

/-! ### Fixtures as texts -/

/-- The two line endings. -/
inductive Ending where
  | lineFeed
  | returnLineFeed

/-- The carriage return of a line ending, if it has one. -/
def Ending.returns : Ending → Text
  | lineFeed => []
  | returnLineFeed => ['\r']

/-- The characters of a line ending. -/
def Ending.text (e : Ending) : Text := e.returns ++ ['\n']

/-- The lines in front of the settings and behind them. -/
def delimiter : Text := "---".toList

/-- The text of a fixture: some byte-order marks, the settings between two delimiters, and the
block. -/
def written (marks : Nat) (e : Ending) (settings : List Text) (block : Text) : Text :=
  List.replicate marks '\ufeff' ++ (delimiter ++ (e.text ++
    (settings.flatMap (· ++ e.text) ++ (delimiter ++ (e.text ++ block)))))

/-- A line of settings: no line ending is inside of it or cuts it off, and it does not begin like a
delimiter. -/
structure IsSetting (l : Text) : Prop where
  notMem : '\n' ∉ l
  last : l.getLast? ≠ some '\r'
  opens : ¬ delimiter <+: l

instance (l : Text) : Decidable (IsSetting l) :=
  decidable_of_iff ('\n' ∉ l ∧ l.getLast? ≠ some '\r' ∧ ¬ delimiter <+: l)
    ⟨fun h => ⟨h.1, h.2.1, h.2.2⟩, fun h => ⟨h.1, h.2, h.3⟩⟩

/-- What lines of settings are read as: the same with either line ending, and whether or not the
last line has one. -/
def ReadsAs (read : Toml.Source) (settings : List Text) (expected : Option Expectations) : Prop :=
  ∀ e : Ending, (parseExpectations read (joinWith e.text settings)).toOption = expected ∧
    (parseExpectations read (settings.flatMap (· ++ e.text))).toOption = expected

variable {e : Ending} {l t after block : Text} {settings : List Text}

/-! ### The parts of a fixture -/

theorem afterEnding_text (e : Ending) (t : Text) : afterEnding (e.text ++ t) = t := by
  cases e <;> rfl

/-- What follows a line is its ending, which does not begin like a delimiter. -/
theorem not_isPrefix_of_isSetting (h : IsSetting l) (e : Ending) (t : Text) :
    ¬ delimiter <+: l ++ (e.text ++ t) := by
  intro hbegins
  cases e with
  | lineFeed => exact h.opens (isPrefix_of_isPrefix_append (by decide) hbegins)
  | returnLineFeed => exact h.opens (isPrefix_of_isPrefix_append (by decide) hbegins)

/-- The search passes over a line of settings. -/
theorem splitAt?_setting (h : IsSetting l) (e : Ending) (t : Text) :
    splitAt? ('\n' :: delimiter) (l ++ (e.text ++ t)) =
      (splitAt? ('\n' :: delimiter) ('\n' :: t)).map fun (before, rest) =>
        (l ++ e.returns ++ before, rest) := by
  have hnotMem : '\n' ∉ l ++ e.returns := by
    cases e <;> simp [Ending.returns, h.notMem]
  have hline : l ++ (e.text ++ t) = (l ++ e.returns) ++ '\n' :: t := by simp [Ending.text]
  rw [hline, splitAt?_append hnotMem]

/-- **The closing delimiter is found below the settings**, and what is left of the ending of the
last line stands in front of it. -/
theorem splitAt?_settings (hne : settings ≠ []) (h : ∀ l ∈ settings, IsSetting l) (e : Ending)
    (after : Text) :
    splitAt? ('\n' :: delimiter) (settings.flatMap (· ++ e.text) ++ (delimiter ++ after)) =
      some (joinWith e.text settings ++ e.returns, after) := by
  induction settings with
  | nil => exact absurd rfl hne
  | cons l settings ih =>
    obtain ⟨hl, hsettings⟩ := List.forall_mem_cons.mp h
    rw [List.flatMap_cons, List.append_assoc, List.append_assoc, splitAt?_setting hl]
    cases settings with
    | nil =>
      rw [List.flatMap_nil, List.nil_append, splitAt?_self, joinWith_singleton, Option.map_some]
      dsimp only
      rw [List.append_nil]
    | cons m settings =>
      have hnext : ¬ '\n' :: delimiter <+:
          '\n' :: ((m :: settings).flatMap (· ++ e.text) ++ (delimiter ++ after)) := by
        rw [List.cons_prefix_cons, and_iff_right rfl, List.flatMap_cons, List.append_assoc,
          List.append_assoc]
        exact not_isPrefix_of_isSetting (hsettings m List.mem_cons_self) e _
      rw [splitAt?_cons hnext, ih (List.cons_ne_nil m settings) hsettings, joinWith_cons_cons]
      simp [Ending.text]

/-- Joined lines do not end in a carriage return. -/
theorem getLast?_joinWith (h : ∀ l ∈ settings, IsSetting l) (e : Ending) :
    (joinWith e.text settings).getLast? ≠ some '\r' := by
  induction settings with
  | nil => simp
  | cons l settings ih =>
    obtain ⟨hl, hsettings⟩ := List.forall_mem_cons.mp h
    cases settings with
    | nil => simpa using hl.last
    | cons m settings =>
      rw [joinWith_cons_cons, List.getLast?_append]
      have hrest := ih hsettings
      cases hlast : (joinWith e.text (m :: settings)).getLast? with
      | none => simp [Ending.text]
      | some c => rwa [hlast] at hrest

theorem dropReturns_append (h : t.getLast? ≠ some '\r') (e : Ending) :
    dropReturns (t ++ e.returns) = t := by
  have hself : dropEndWhile (· == '\r') t = t := by
    refine dropEndWhile_of_getLast? ?_
    cases hlast : t.getLast? with
    | none => rfl
    | some c => exact beq_eq_false_iff_ne.mpr fun hc => h (hc ▸ hlast)
  cases e with
  | lineFeed => rw [Ending.returns, List.append_nil]; exact hself
  | returnLineFeed =>
    rw [Ending.returns, dropReturns, List.reverse_append]
    exact hself

theorem split_marks (marks : Nat) (t : Text) :
    split (List.replicate marks '\ufeff' ++ t) = split t := by
  rw [split, split, List.dropWhile_append_of_pos (by simp)]

theorem split_delimiter (t : Text) :
    split (delimiter ++ t) = match splitAt? ('\n' :: delimiter) (afterEnding t) with
      | some (front, rest) => .ok (dropReturns front, afterEnding rest)
      | none => .error .noClosing :=
  rfl

/-- **The parts of a fixture** are those it was written from, if it has settings. -/
theorem split_written (hne : settings ≠ []) (h : ∀ l ∈ settings, IsSetting l) (marks : Nat)
    (e : Ending) (block : Text) :
    split (written marks e settings block) = .ok (joinWith e.text settings, block) := by
  rw [written, split_marks, split_delimiter, afterEnding_text, splitAt?_settings hne h]
  dsimp only
  rw [dropReturns_append (getLast?_joinWith h e), afterEnding_text]

/-- A fixture without settings has no closing delimiter if no line of its block begins like one. -/
theorem split_written_nil (h : ¬ '\n' :: delimiter <:+: e.text ++ block) (marks : Nat) :
    split (written marks e [] block) = .error .noClosing := by
  rw [written, split_marks, split_delimiter, afterEnding_text, List.flatMap_nil, List.nil_append,
    splitAt?_append (by decide), splitAt?_eq_none h]
  rfl

/-! ### Reading what was written -/

/-- Where no expectations are read, the error says so, with what the reader says about it. -/
theorem exists_parseExpectations_eq (read : Toml.Source) (front : Text) :
    ∃ reason, parseExpectations read front =
      (parseExpectations read front).toOption.elim (.error (.expectations reason)) .ok := by
  unfold parseExpectations
  split
  · next reason _ => exact ⟨reason, rfl⟩
  · split
    · exact ⟨none, rfl⟩
    · exact ⟨none, rfl⟩

/-- A text that has its parts is the fixture of the block, if the settings are read. -/
theorem parse_of_split {read : Toml.Source} {content front block : Text}
    (h : split content = .ok (front, block)) :
    parse read content =
      (parseExpectations read front).map fun expectations => ⟨expectations, block⟩ := by
  rw [parse, h]
  cases hfront : parseExpectations read front <;>
    simp [bind, Except.bind, pure, Except.pure, Except.map, hfront]

/-- **A fixture reads back as it was written** if it has a line of settings: as the block and what
its settings are read as, if they are read at all.  Without such a line it has no closing delimiter,
unless a line of the block begins like one. -/
theorem parse_written {read : Toml.Source} {expected : Option Expectations}
    (h : ∀ l ∈ settings, IsSetting l) (hread : ReadsAs read settings expected) (marks : Nat)
    (e : Ending) (block : Text) :
    (settings ≠ [] → ∃ reason, parse read (written marks e settings block) =
        expected.elim (.error (.expectations reason))
          fun expectations => .ok ⟨expectations, block⟩) ∧
      (settings = [] → ¬ '\n' :: delimiter <:+: e.text ++ block →
        parse read (written marks e settings block) = .error .noClosing) := by
  constructor
  · intro hne
    obtain ⟨reason, hfront⟩ := exists_parseExpectations_eq read (joinWith e.text settings)
    refine ⟨reason, ?_⟩
    rw [parse_of_split (split_written hne h marks e block), hfront, (hread e).1]
    cases expected <;> rfl
  · rintro rfl hblock
    rw [parse, split_written_nil hblock]
    rfl

/-- Settings with an empty line and a text over several lines, one of which looks like the header of
a table. -/
def sampleSettings : List Text :=
  ["id = '''".toList, "[b]".toList, "'''".toList, [], "expect_order = false".toList]

/-- A fixture with such settings, whose block begins with an empty line and another delimiter. -/
theorem parse_written_sampleSettings :
    (∀ l ∈ sampleSettings, IsSetting l) ∧ sampleSettings ≠ [] ∧
      ReadsAs Toml.parse sampleSettings (some { id := "[b]\n".toList, isOrder := false }) ∧
      parse Toml.parse (written 1 .returnLineFeed sampleSettings "\r\n---\r\nx".toList) =
        .ok ⟨{ id := "[b]\n".toList, isOrder := false }, "\r\n---\r\nx".toList⟩ := by
  have hsettings : ∀ l ∈ sampleSettings, IsSetting l := by decide
  have hne : sampleSettings ≠ [] := by decide
  have hread : ReadsAs Toml.parse sampleSettings
      (some { id := "[b]\n".toList, isOrder := false }) := by
    intro e
    cases e <;> decide +kernel
  obtain ⟨_, hparse⟩ := (parse_written hsettings hread 1 .returnLineFeed _).1 hne
  exact ⟨hsettings, hne, hread, hparse⟩

/-- A fixture without settings, which would be read as what is expected by default, but is not. -/
def FailsToRead (e : Ending) (block : Text) (error : Malformed) : Prop :=
  ReadsAs Toml.parse [] (some {}) ∧ parse Toml.parse (written 0 e [] block) = .error error

/-- **Fixtures without settings** have no closing delimiter, or a later line is taken for it and the
delimiter itself for settings. -/
theorem failsToRead_of_no_settings :
    FailsToRead .lineFeed "code: |\n  a\n".toList .noClosing ∧
      FailsToRead .lineFeed "---\ncode: |\n  a\n".toList (.expectations none) := by
  have hread : ReadsAs Toml.parse [] (some {}) := by
    intro e
    cases e <;> decide +kernel
  refine ⟨⟨hread, ?_⟩, ⟨hread, ?_⟩⟩ <;> decide +kernel

end Fixture

end InterviewPlan
