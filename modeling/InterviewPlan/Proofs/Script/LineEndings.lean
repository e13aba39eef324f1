import InterviewPlan.Proofs.Script.Extraction

/-!
# Line endings

The lines of a text are the same whether line feeds alone end them or carriage returns and line
feeds.  Taking a plan out of a block looks for three kinds of lines before that, with the carriage
return still at their end.  A header at the left margin is then not recognised, so that the script
is the one of the first header at any depth; an identifier keeps the quotation mark at its end; and
a `mandatory:` line is not read unless it is the last line and has no ending.

## Main definitions

* `Text.withReturns`: the text with a carriage return before each line feed

## Main results

* `Text.lines_withReturns`: its lines are those of the text
* `Extract.payload?_withReturns`: its script is that of the first header at any depth
* `Extract.id?_withReturns`: its identifier is that of the text, if no quotation mark ends it
* `Extract.mandatory?_withReturns`: only a last line without an ending says whether it is mandatory
* `Script.extract_withReturns`: where its plan is that of the text
* `Script.withReturns_readsOtherwise`: where it is not
-/

namespace InterviewPlan

open Text

variable {t l value : Text}

/-! ### Lines -/

namespace Text

/-- The text with a carriage return before each line feed. -/
def withReturns (t : Text) : Text := t.flatMap fun c => if c = '\n' then ['\r', '\n'] else [c]

theorem withReturns_of_notMem (h : '\n' ∉ l) : withReturns l = l := by
  induction l with
  | nil => rfl
  | cons c l ih =>
    obtain ⟨hc, hl⟩ := List.ne_and_not_mem_of_not_mem_cons h
    have hrest : (l.flatMap fun c => if c = '\n' then ['\r', '\n'] else [c]) = l := ih hl
    rw [withReturns, List.flatMap_cons, if_neg hc.symm, hrest]
    rfl

/-- The first line, with a carriage return at its end. -/
theorem withReturns_append (hl : '\n' ∉ l) (r : Text) :
    withReturns (l ++ '\n' :: r) = (l ++ ['\r']) ++ '\n' :: withReturns r := by
  have hfirst : (l.flatMap fun c => if c = '\n' then ['\r', '\n'] else [c]) = l :=
    withReturns_of_notMem hl
  rw [withReturns, List.flatMap_append, hfirst, List.flatMap_cons, if_pos rfl, withReturns]
  simp

theorem notMem_lineFeed_return (hl : '\n' ∉ l) : '\n' ∉ l ++ ['\r'] := by simp [hl]

theorem dropEnding_return (l : Text) : dropEnding ((l ++ ['\r']) ++ ['\n']) = l := by
  simp [dropEnding]

/-- **The lines of a text** do not depend on the line endings. -/
theorem lines_withReturns (ht : '\r' ∉ t) : lines (withReturns t) = lines t := by
  induction t using lineInduction with
  | last l hl => rw [withReturns_of_notMem hl]
  | cons l r hl ih =>
    rw [List.mem_append, not_or] at ht
    obtain ⟨hreturn, hr⟩ := ht
    have hrest : (fullLines (withReturns r)).map dropEnding = (fullLines r).map dropEnding :=
      ih fun h => hr (List.mem_cons_of_mem _ h)
    rw [withReturns_append hl, lines, lines, fullLines_append (notMem_lineFeed_return hl),
      fullLines_append hl, List.map_cons, List.map_cons, dropEnding_return,
      dropEnding_lineFeed hreturn, hrest]

/-- What begins with a text that has no carriage return still does so in front of one. -/
theorem isPrefixOf?_return {key : Text} (hkey : '\r' ∉ key) (l : Text) :
    key.isPrefixOf? (l ++ ['\r']) = (key.isPrefixOf? l).map (· ++ ['\r']) := by
  induction key generalizing l with
  | nil => rfl
  | cons k key ih =>
    obtain ⟨hk, hkey⟩ := List.ne_and_not_mem_of_not_mem_cons hkey
    cases l with
    | nil => simp [List.isPrefixOf?, hk.symm]
    | cons c l =>
      rw [List.cons_append, List.isPrefixOf?, List.isPrefixOf?, ih hkey]
      split <;> rfl

end Text

namespace Extract

/-! ### The lines of the script -/

theorem dropWhile_isIndent_return (l : Text) :
    (l ++ ['\r']).dropWhile isIndent = l.dropWhile isIndent ++ ['\r'] := by
  rw [List.dropWhile_append]
  cases h : l.dropWhile isIndent <;> rfl

theorem indentOf_return (l : Text) : indentOf (l ++ ['\r']) = indentOf l := by
  rw [indentOf, indentOf, indentWidth, indentWidth, List.takeWhile_append]
  split
  · next hall =>
    rw [List.takeWhile_cons_of_neg (by decide), List.append_nil]
    exact hall.symm
  · rfl

theorem isHeader_return (l : Text) : isHeader (l ++ ['\r']) = isHeader l := by
  have hkey : '\r' ∉ "code:".toList := by decide
  have hprefix := isPrefixOf?_return hkey (l.dropWhile isIndent)
  rw [isHeader, isHeader, dropWhile_isIndent_return, ← List.isSome_isPrefixOf?_eq_isPrefixOf,
    ← List.isSome_isPrefixOf?_eq_isPrefixOf, hprefix, Option.isSome_map]

/-- A carriage return is no part of an indicator. -/
theorem isStrictHeader_return (l : Text) : isStrictHeader (l ++ ['\r']) = false := by
  have hkey : '\r' ∉ "code:".toList := by decide
  rw [isStrictHeader, isPrefixOf?_return hkey]
  cases "code:".toList.isPrefixOf? l with
  | none => rfl
  | some r =>
    have hreturn : ∀ s : Text, '\r' ∈ s → s.all isIndent = false := fun s hs =>
      List.all_eq_false.mpr ⟨'\r', hs, by decide⟩
    have hmem : '\r' ∈ (r ++ ['\r']).dropWhile isIndent := by
      rw [dropWhile_isIndent_return]
      exact List.mem_concat_self
    dsimp only [Option.map_some]
    split
    · next s hs => exact hreturn s (by simpa [hs] using hmem)
    · next s hs => exact hreturn s (by simpa [hs] using hmem)
    · next s _ _ hs => exact hreturn s (by simpa [hs] using hmem)
    · exact hreturn _ hmem

/-- No header at the left margin is recognised above the last line. -/
theorem strictPayload?_withReturns (t : Text) : strictPayload? (withReturns t) = none := by
  have hbelow : ∀ x ∈ below? isStrictHeader (withReturns t), x.2 = [] := by
    induction t using lineInduction with
    | last l hl =>
      rw [withReturns_of_notMem hl, below?_of_notMem rfl hl]
      split
      · intro x hx
        rw [← Option.some.inj hx]
      · exact nofun
    | cons l r hl ih =>
      rw [withReturns_append hl, below?_append (notMem_lineFeed_return hl),
        isStrictHeader_return]
      exact ih
  rw [strictPayload?, Option.bind_eq_bind, Option.bind_eq_none_iff]
  intro x hx
  obtain ⟨header, rest⟩ := x
  obtain rfl : rest = [] := hbelow _ hx
  rfl

/-- The script of the first header at any depth is the same. -/
theorem lenientPayload?_withReturns (ht : '\r' ∉ t) :
    lenientPayload? (withReturns t) = lenientPayload? t := by
  induction t using lineInduction with
  | last l hl => rw [withReturns_of_notMem hl]
  | cons l r hl ih =>
    rw [List.mem_append, not_or] at ht
    have hr : '\r' ∉ r := fun h => ht.2 (List.mem_cons_of_mem _ h)
    rw [lenientPayload?, lenientPayload?] at ih ⊢
    rw [withReturns_append hl, below?_append (notMem_lineFeed_return hl), below?_append hl,
      isHeader_return]
    cases isHeader l with
    | true =>
      simp only [if_true, Option.bind_eq_bind, Option.bind_some, lines_withReturns hr,
        indentOf_return]
    | false => exact ih hr

/-- **The script of a block** with carriage returns is that of the first header at any depth. -/
theorem payload?_withReturns (ht : '\r' ∉ t) : payload? (withReturns t) = lenientPayload? t := by
  rw [payload?, strictPayload?_withReturns, Option.none_or, lenientPayload?_withReturns ht]

/-! ### Keys and their values -/

theorem afterKey?_return {key : Text} (hkey : '\r' ∉ key) (l : Text) :
    afterKey? key (l ++ ['\r']) = (afterKey? key l).map (· ++ ['\r']) := by
  rw [afterKey?, afterKey?, dropWhile_isIndent_return, isPrefixOf?_return hkey, Option.map_map,
    Option.map_map]
  exact Option.map_congr fun s _ => dropWhile_isIndent_return s

/-- A line has the value of an identifier with a carriage return or without one; the one keeps the
blanks at the end of the value. -/
theorem idValue?_return (l : Text) :
    idValue? (l ++ ['\r']) = none ∧ idValue? l = none ∨
      ∃ v, idValue? (l ++ ['\r']) = some (v ++ ['\r']) ∧
        idValue? l = some (dropEndWhile isIndent v) := by
  have hkey : '\r' ∉ "id:".toList := by decide
  rw [idValue?, idValue?, afterKey?_return hkey]
  cases afterKey? "id:".toList l with
  | none => exact Or.inl ⟨rfl, rfl⟩
  | some v =>
    have hhead : (v ++ ['\r']).head?.any (!isBlank ·) = v.head?.any (!isBlank ·) := by
      cases v <;> rfl
    have hlast : dropEndWhile isIndent (v ++ ['\r']) = v ++ ['\r'] :=
      dropEndWhile_of_getLast? (by rw [List.getLast?_concat]; rfl)
    simp only [Option.map_some, Option.bind_eq_bind, Option.bind_some, hhead, hlast]
    cases v.head?.any (!isBlank ·) with
    | true => exact Or.inr ⟨v, rfl, rfl⟩
    | false => exact Or.inl ⟨rfl, rfl⟩

/-- A value without a quotation mark at its end is the same identifier. -/
theorem trim_trimMatches_return
    (h : (dropEndWhile isIndent value).getLast?.any isQuotationMark = false) :
    trim (trimMatches isQuotationMark (value ++ ['\r'])) =
      trim (trimMatches isQuotationMark (dropEndWhile isIndent value)) := by
  obtain ⟨u, i, hu, rfl, hi⟩ : ∃ u i, dropEndWhile isIndent value = u ∧ value = u ++ i ∧
      ∀ c ∈ i, isIndent c = true :=
    ⟨_, value.rtakeWhile isIndent, rfl, List.rdropWhile_append_rtakeWhile.symm,
      fun c hc => List.mem_rtakeWhile_imp hc⟩
  rw [hu] at h ⊢
  have hblank : ∀ c ∈ i ++ ['\r'], isBlank c = true := by
    intro c hc
    rcases List.mem_append.mp hc with hc | hc
    · exact isBlank_of_isIndent (hi c hc)
    · rw [List.mem_singleton.mp hc]
      decide
  have hfront : (u ++ (i ++ ['\r'])).dropWhile isQuotationMark =
      u.dropWhile isQuotationMark ++ (i ++ ['\r']) := by
    cases u using List.reverseRecOn with
    | nil =>
      apply dropWhile_of_head?
      cases i with
      | nil => rfl
      | cons c i =>
        have hc := hi c List.mem_cons_self
        rcases Bool.or_eq_true _ _ ▸ hc with hc | hc <;> rw [beq_iff_eq.mp hc] <;> rfl
    | append_singleton u z =>
      have hz : isQuotationMark z = false := by
        rwa [List.getLast?_concat, Option.any_some] at h
      rw [List.dropWhile_append, if_neg]
      rw [List.isEmpty_iff, List.dropWhile_eq_nil_iff]
      intro hall
      rw [hall z List.mem_concat_self] at hz
      cases hz
  have hback : dropEndWhile isQuotationMark (u.dropWhile isQuotationMark ++ (i ++ ['\r'])) =
      u.dropWhile isQuotationMark ++ (i ++ ['\r']) := by
    apply dropEndWhile_of_getLast?
    rw [← List.append_assoc, List.getLast?_concat]
    rfl
  have hend : dropEndWhile isQuotationMark (u.dropWhile isQuotationMark) =
      u.dropWhile isQuotationMark := by
    apply dropEndWhile_of_getLast?
    obtain ⟨marks, hmarks⟩ := List.dropWhile_suffix (l := u) isQuotationMark
    rw [← hmarks, List.getLast?_append] at h
    cases hlast : (u.dropWhile isQuotationMark).getLast? with
    | none => rfl
    | some z => simpa [hlast] using h
  rw [List.append_assoc, trimMatches, trimMatches, hfront, hback, hend]
  exact trim_append_blank hblank _

/-- **The identifier** is the same if no quotation mark ends its value. -/
theorem id?_withReturns
    (hid : ∀ value ∈ (rawLines t).findSome? idValue?,
      value.getLast?.any isQuotationMark = false) :
    id? (withReturns t) = id? t := by
  have hvalues : (rawLines (withReturns t)).findSome? idValue? = (rawLines t).findSome? idValue? ∨
      ∃ v, (rawLines (withReturns t)).findSome? idValue? = some (v ++ ['\r']) ∧
        (rawLines t).findSome? idValue? = some (dropEndWhile isIndent v) := by
    clear hid
    induction t using lineInduction with
    | last l hl => exact Or.inl (by rw [withReturns_of_notMem hl])
    | cons l r hl ih =>
      rw [withReturns_append hl, rawLines_append (notMem_lineFeed_return hl), rawLines_append hl,
        List.findSome?_cons, List.findSome?_cons]
      rcases idValue?_return l with ⟨hreturn, hnone⟩ | ⟨v, hreturn, hsome⟩
      · rw [hreturn, hnone]
        exact ih
      · rw [hreturn, hsome]
        exact Or.inr ⟨v, rfl, rfl⟩
  rw [id?, id?]
  rcases hvalues with hsame | ⟨v, hreturn, hsome⟩
  · rw [hsame]
  · have htrim := trim_trimMatches_return (hid _ hsome)
    simp only [hreturn, hsome, Option.bind_eq_bind, Option.bind_some, htrim]

/-- No value of a `mandatory:` line stands in front of a carriage return. -/
theorem mandatoryValue?_return (l : Text) : mandatoryValue? (l ++ ['\r']) = none := by
  have hkey : '\r' ∉ "mandatory:".toList := by decide
  rw [mandatoryValue?, afterKey?_return hkey]
  cases afterKey? "mandatory:".toList l with
  | none => rfl
  | some v =>
    have hword : ((v ++ ['\r']).takeWhile (!isBlank ·)).length ≤ v.length := by
      rw [List.takeWhile_append]
      split
      · rw [List.takeWhile_cons_of_neg (by decide), List.append_nil]
      · exact (List.takeWhile_prefix _).length_le
    have hrest : ((v ++ ['\r']).drop ((v ++ ['\r']).takeWhile (!isBlank ·)).length).all isIndent =
        false := by
      rw [List.drop_append_of_le_length hword, List.all_append]
      exact Bool.and_false _
    simp only [Option.map_some, Option.bind_eq_bind, Option.bind_some, hrest, Bool.not_false,
      Bool.or_true, if_true]

/-- What stands behind the last line feed stands behind it in the rest of the lines. -/
theorem rtakeWhile_lineFeed (l r : Text) :
    (l ++ '\n' :: r).rtakeWhile (· ≠ '\n') = r.rtakeWhile (· ≠ '\n') := by
  rw [List.rtakeWhile, List.reverse_append, List.reverse_cons, List.append_assoc,
    List.takeWhile_append]
  split
  · next hall =>
    rw [List.singleton_append, List.takeWhile_cons_of_neg (by simp), List.append_nil,
      List.rtakeWhile, (List.takeWhile_prefix _).eq_of_length hall]
  · rfl

/-- **Only a last line without an ending** says whether a block is mandatory. -/
theorem mandatory?_withReturns (t : Text) :
    mandatory? (withReturns t) = mandatory? (t.rtakeWhile (· ≠ '\n')) := by
  have hvalue : (rawLines (withReturns t)).findSome? mandatoryValue? =
      (rawLines (t.rtakeWhile (· ≠ '\n'))).findSome? mandatoryValue? := by
    induction t using lineInduction with
    | last l hl =>
      have hself : l.rtakeWhile (· ≠ '\n') = l := by
        rw [List.rtakeWhile_eq_self_iff]
        intro c hc
        simpa using fun h : c = '\n' => hl (h ▸ hc)
      rw [withReturns_of_notMem hl, hself]
    | cons l r hl ih =>
      rw [withReturns_append hl, rawLines_append (notMem_lineFeed_return hl), List.findSome?_cons,
        mandatoryValue?_return, rtakeWhile_lineFeed]
      exact ih
  rw [mandatory?, mandatory?, hvalue]

end Extract

namespace Script

/-- **A block with carriage returns** has the plan of the block without them, if no quotation mark
ends its identifier and no header at the left margin has a script that is not the script of the
first header at any depth.  Whether it is mandatory is said by its last line alone, and only if no
line feed ends that. -/
theorem extract_withReturns (ht : '\r' ∉ t)
    (hid : ∀ value ∈ (rawLines t).findSome? Extract.idValue?,
      value.getLast?.any isQuotationMark = false)
    (hheader : ∀ payload ∈ Extract.strictPayload? t, Extract.lenientPayload? t = some payload) :
    extract (withReturns t) = extract t ∧
      Extract.mandatory? (withReturns t) = Extract.mandatory? (t.rtakeWhile (· ≠ '\n')) := by
  have hpayload : Extract.payload? (withReturns t) = Extract.payload? t := by
    rw [Extract.payload?_withReturns ht, Extract.payload?]
    cases hstrict : Extract.strictPayload? t with
    | none => rw [Option.none_or]
    | some payload => rw [Option.some_or, hheader payload hstrict]
  constructor
  · rw [extract, extract, hpayload, Extract.id?_withReturns hid]
  · exact Extract.mandatory?_withReturns t

/-- A block with an identifier, a script and a last line without an ending. -/
def returnsSample : Text :=
  "id: order\nquestion: |\n  Hello\ncode: |\n  if a:\n    b\n  c\nmandatory: no".toList

/-- A block that reads the same with either line ending. -/
theorem extract_withReturns_sample :
    ('\r' ∉ returnsSample ∧
        (∀ value ∈ (rawLines returnsSample).findSome? Extract.idValue?,
          value.getLast?.any isQuotationMark = false) ∧
        ∀ payload ∈ Extract.strictPayload? returnsSample,
          Extract.lenientPayload? returnsSample = some payload) ∧
      extract (withReturns returnsSample) = extract returnsSample ∧
      Extract.mandatory? (withReturns returnsSample) =
        Extract.mandatory? (returnsSample.rtakeWhile (· ≠ '\n')) := by
  have hreturn : '\r' ∉ returnsSample := by decide
  have hid : ∀ value ∈ (rawLines returnsSample).findSome? Extract.idValue?,
      value.getLast?.any isQuotationMark = false := by decide
  have hheader : ∀ payload ∈ Extract.strictPayload? returnsSample,
      Extract.lenientPayload? returnsSample = some payload := by decide
  exact ⟨⟨hreturn, hid, hheader⟩, extract_withReturns hreturn hid hheader⟩

/-- **Carriage returns that change what is read**: a quotation mark stays at the end of an
identifier, a `mandatory:` line is not read, and of two headers the one that is indented is taken,
below which there is no script. -/
theorem withReturns_readsOtherwise :
    ((extract "id: \"x\"\ncode: |\n  a\n".toList).map Plan.id = some "x".toList ∧
        (extract (withReturns "id: \"x\"\ncode: |\n  a\n".toList)).map Plan.id =
          some "x\"".toList) ∧
      (Extract.mandatory? "mandatory: True\n".toList = some true ∧
        Extract.mandatory? (withReturns "mandatory: True\n".toList) = none) ∧
      ((extract "data:\n  code: x\ncode: |\n  a\n".toList).isSome = true ∧
        (extract (withReturns "data:\n  code: x\ncode: |\n  a\n".toList)).isSome = false) := by
  decide +kernel

end Script

end InterviewPlan
