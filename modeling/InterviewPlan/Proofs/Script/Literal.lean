import InterviewPlan.Proofs.Script.Legible
import InterviewPlan.Proofs.Text.Lines

/-!
# What is written for a value

The literal of a value is put together from texts in quotation marks, from expressions that are
written as they stand, and from numbers, words and brackets without any special character.  So what
holds of these and survives putting texts together holds of all literals.  In particular, if no text
of a value is an expression, the count of parentheses passes over its literal as if it were not
there, whatever the texts say.

## Main definitions

* `Json.texts`, `Snapshot.texts`: the texts in a value and in the data of a snapshot
* `Json.strings`, `Snapshot.strings`: those of them that are no keys
* `Script.IsPlain`: a text without special characters
* `Script.IsAdditive`: a property that goes from texts to what is put together from them
* `Script.IsNeutral`: a text that the count of parentheses passes over

## Main results

* `Script.IsAdditive.literal`: what holds of all parts of a literal holds of it
* `Script.isNeutral_quote`, `Script.isNeutral_literal`: what the count of parentheses passes over
* `Script.parenDelta_entry`: the count passes over an entry of a mapping
* `Snapshot.isBalanced_of_strings`: data without expressions close the parentheses they open
-/

namespace InterviewPlan

open Text Script Statement

/-! ### The texts of a value -/

namespace Json

mutual

/-- The keys and the texts in a value, at any depth. -/
def texts : Json → List Text
  | .str s => [s]
  | .arr items => itemTexts items
  | .obj members => memberTexts members
  | _ => []

/-- The texts in the items of a list. -/
def itemTexts : List Json → List Text
  | [] => []
  | value :: rest => texts value ++ itemTexts rest

/-- The keys and the texts in the members of an object. -/
def memberTexts : List (Text × Json) → List Text
  | [] => []
  | (key, value) :: rest => key :: (texts value ++ memberTexts rest)

end

mutual

/-- The texts in a value that are no keys, at any depth. -/
def strings : Json → List Text
  | .str s => [s]
  | .arr items => itemStrings items
  | .obj members => memberStrings members
  | _ => []

/-- The texts in the items of a list that are no keys. -/
def itemStrings : List Json → List Text
  | [] => []
  | value :: rest => strings value ++ itemStrings rest

/-- The texts in the members of an object that are no keys. -/
def memberStrings : List (Text × Json) → List Text
  | [] => []
  | (_, value) :: rest => strings value ++ memberStrings rest

end

mutual

theorem strings_subset_texts (value : Json) : value.strings ⊆ value.texts := by
  cases value with
  | arr items =>
    rw [strings, texts]
    exact itemStrings_subset_itemTexts items
  | obj members =>
    rw [strings, texts]
    exact memberStrings_subset_memberTexts members
  | _ => exact List.Subset.refl _

theorem itemStrings_subset_itemTexts (items : List Json) : itemStrings items ⊆ itemTexts items := by
  cases items with
  | nil => exact List.Subset.refl _
  | cons value rest =>
    rw [itemStrings, itemTexts]
    exact List.append_subset.mpr ⟨List.subset_append_of_subset_left _ (strings_subset_texts value),
      List.subset_append_of_subset_right _ (itemStrings_subset_itemTexts rest)⟩

theorem memberStrings_subset_memberTexts (members : List (Text × Json)) :
    memberStrings members ⊆ memberTexts members := by
  cases members with
  | nil => exact List.Subset.refl _
  | cons member rest =>
    rw [memberStrings, memberTexts]
    exact List.subset_cons_of_subset _ (List.append_subset.mpr
      ⟨List.subset_append_of_subset_left _ (strings_subset_texts member.2),
        List.subset_append_of_subset_right _ (memberStrings_subset_memberTexts rest)⟩)

end

end Json

/-- The keys and the texts in the data of a snapshot. -/
def Snapshot.texts (args : Snapshot) : List Text := Json.memberTexts args.data

/-- The texts in the data of a snapshot that are no keys. -/
def Snapshot.strings (args : Snapshot) : List Text := Json.memberStrings args.data

namespace Script

variable {c : Char} {s t : Text}

/-! ### Plain texts -/

/-- The characters that end a line or that the count of parentheses looks for. -/
def marks : Text := ['\n', '"', '\'', '(', ')', '#']

/-- A text without special characters. -/
def IsPlain (t : Text) : Prop := ∀ c ∈ marks, c ∉ t

instance : Decidable (IsPlain t) :=
  decidable_of_iff (marks.all (fun c => !t.contains c) = true) (by simp [IsPlain])

/-- What is no digit and stands in no word for a number is in no number. -/
theorem notMem_number (hdigit : c.isDigit = false) (hword : c ∉ "-.inf".toList) (x : Binary) :
    c ∉ number x := by
  obtain ⟨hminus, hpoint, hi, hn, hf⟩ : c ≠ '-' ∧ c ≠ '.' ∧ c ≠ 'i' ∧ c ≠ 'n' ∧ c ≠ 'f' := by
    simpa using hword
  have hdigits : ∀ m, c ∉ Text.ofNat m := Text.notMem_ofNat hdigit
  have hzeros : ∀ k, c ∉ List.replicate k '0' := by
    intro k h
    rw [List.eq_of_mem_replicate h] at hdigit
    exact absurd hdigit (by decide)
  have hplain : ∀ d, c ∉ numberLayout.plain d := by
    intro d
    unfold Layout.plain
    dsimp only
    split
    · simp [hdigits, hzeros, numberLayout]
    · intro h
      rcases List.mem_append.mp h with h | h
      · have hmem := List.mem_of_mem_take h
        simp [hdigits, hzeros] at hmem
      rcases List.mem_cons.mp h with h | h
      · exact absurd h hpoint
      · have hmem := List.mem_of_mem_drop h
        simp [hdigits, hzeros] at hmem
  unfold number
  split
  · exact hzeros 1
  split
  · unfold Layout.render
    dsimp only
    rw [show ∀ d, numberLayout.isPlain d = true from fun _ => rfl, Bool.or_true, if_pos rfl]
    split <;> simp [hplain, hminus]
  split <;> simp [hminus, hi, hn, hf]

theorem isPlain_number (x : Binary) : IsPlain (number x) := by
  have hmarks : ∀ c ∈ marks, c.isDigit = false ∧ c ∉ "-.inf".toList :=
    List.forall_iff_forall_mem.mp (by decide)
  exact fun c hc => notMem_number (hmarks c hc).1 (hmarks c hc).2 x

theorem isPlain_float (value : Double) : IsPlain (float value) := by
  cases value with
  | number x => exact isPlain_number x
  | nan => decide

theorem isPlain_ofInt (n : Int) : IsPlain (Text.ofInt n) := by
  have hmarks : ∀ c ∈ marks, c.isDigit = false ∧ c ≠ '-' :=
    List.forall_iff_forall_mem.mp (by decide)
  intro c hc
  have hdigits := Text.notMem_ofNat (hmarks c hc).1
  cases n with
  | ofNat m => exact hdigits m
  | negSucc m => simpa [Text.ofInt, (hmarks c hc).2] using hdigits (m + 1)

theorem isPlain_truth (b : Bool) : IsPlain (truth b) := by cases b <;> decide

/-! ### The parts of a literal -/

/-- A property of texts that survives putting them together and holds of those without special
characters. -/
structure IsAdditive (p : Text → Prop) : Prop where
  append : ∀ {s t}, p s → p t → p (s ++ t)
  plain : ∀ {t}, IsPlain t → p t

variable {p : Text → Prop}

theorem IsAdditive.joinWith (hp : IsAdditive p) (hsep : IsPlain s) {ts : List Text}
    (h : ∀ t ∈ ts, p t) : p (joinWith s ts) := by
  induction ts with
  | nil => exact hp.plain (t := []) (by decide)
  | cons t ts ih =>
    obtain ⟨ht, hts⟩ := List.forall_mem_cons.mp h
    cases ts with
    | nil => simpa using ht
    | cons u ts =>
      rw [joinWith_cons_cons]
      exact hp.append (hp.append ht (hp.plain hsep)) (ih hts)

mutual

/-- **What holds of all parts of a literal holds of it**: of texts without special characters, of
the texts of the value in quotation marks, and of those that are expressions as they stand. -/
theorem IsAdditive.literal (hp : IsAdditive p) (value : Json)
    (hquote : ∀ t ∈ value.texts, p (quote t))
    (hexpression : ∀ t ∈ value.strings, isExpression t = true → p t) : p (literal value) := by
  cases value with
  | null => exact hp.plain (by decide)
  | bool b => exact hp.plain (isPlain_truth b)
  | int n => exact hp.plain (isPlain_ofInt n)
  | float x =>
    rw [Script.literal]
    split
    · exact hp.plain (isPlain_number x)
    · exact hp.plain (by decide)
  | str s =>
    rw [Script.literal]
    split
    · next h => exact hexpression s (by simp [Json.strings]) h
    · exact hquote s (by simp [Json.texts])
  | arr items =>
    rw [Json.texts] at hquote
    rw [Json.strings] at hexpression
    rw [Script.literal]
    have hitems := hp.joinWith (s := [',', ' ']) (by decide)
      (hp.literals items hquote hexpression)
    exact hp.append (hp.append (s := ['[']) (hp.plain (by decide)) hitems) (hp.plain (by decide))
  | obj members =>
    rw [Json.texts] at hquote
    rw [Json.strings] at hexpression
    rw [Script.literal]
    have hmembers := hp.joinWith (s := [',', ' ']) (by decide)
      (hp.entries members hquote hexpression)
    exact hp.append (hp.append (s := ['\x7b']) (hp.plain (by decide)) hmembers)
      (hp.plain (by decide))

theorem IsAdditive.literals (hp : IsAdditive p) (items : List Json)
    (hquote : ∀ t ∈ Json.itemTexts items, p (quote t))
    (hexpression : ∀ t ∈ Json.itemStrings items, isExpression t = true → p t) :
    ∀ l ∈ literals items, p l := by
  cases items with
  | nil => exact nofun
  | cons value rest =>
    rw [Json.itemTexts, List.forall_mem_append] at hquote
    rw [Json.itemStrings, List.forall_mem_append] at hexpression
    rw [Script.literals]
    exact List.forall_mem_cons.mpr
      ⟨hp.literal value hquote.1 hexpression.1, hp.literals rest hquote.2 hexpression.2⟩

theorem IsAdditive.entries (hp : IsAdditive p) (members : List (Text × Json))
    (hquote : ∀ t ∈ Json.memberTexts members, p (quote t))
    (hexpression : ∀ t ∈ Json.memberStrings members, isExpression t = true → p t) :
    ∀ l ∈ entries members, p l := by
  cases members with
  | nil => exact nofun
  | cons member rest =>
    obtain ⟨key, value⟩ := member
    rw [Json.memberTexts, List.forall_mem_cons, List.forall_mem_append] at hquote
    rw [Json.memberStrings, List.forall_mem_append] at hexpression
    rw [Script.entries]
    refine List.forall_mem_cons.mpr ⟨?_, hp.entries rest hquote.2.2 hexpression.2⟩
    have hvalue := hp.append (s := [':', ' ']) (hp.plain (by decide))
      (hp.literal value hquote.2.1 hexpression.1)
    exact hp.append hquote.1 hvalue

end

/-- What holds of all parts of some data holds of each entry in front of its comma. -/
theorem IsAdditive.data (hp : IsAdditive p) {args : Snapshot}
    (hquote : ∀ t ∈ args.texts, p (quote t))
    (hexpression : ∀ t ∈ args.strings, isExpression t = true → p t) :
    ∀ x ∈ args.data, p (quote x.1 ++ ": ".toList ++ Script.literal x.2) := by
  obtain ⟨persistent, data⟩ := args
  rw [Snapshot.texts] at hquote
  rw [Snapshot.strings] at hexpression
  dsimp only at hquote hexpression ⊢
  induction data with
  | nil => exact nofun
  | cons x rest ih =>
    rw [Json.memberTexts, List.forall_mem_cons, List.forall_mem_append] at hquote
    rw [Json.memberStrings, List.forall_mem_append] at hexpression
    refine List.forall_mem_cons.mpr ⟨?_, ih hquote.2.2 hexpression.2⟩
    exact hp.append (hp.append hquote.1 (hp.plain (by decide)))
      (hp.literal x.2 hquote.2.1 hexpression.1)

theorem IsAdditive.entryTexts (hp : IsAdditive p) {args : Snapshot}
    (hquote : ∀ t ∈ args.texts, p (quote t))
    (hexpression : ∀ t ∈ args.strings, isExpression t = true → p t) :
    ∀ entry ∈ args.entryTexts, p entry := by
  intro entry hentry
  obtain ⟨x, hx, rfl⟩ := List.mem_map.mp hentry
  exact hp.append (hp.data hquote hexpression x hx) (hp.plain (by decide))

/-! ### Lines and parentheses -/

theorem isAdditive_notMem_lineFeed : IsAdditive ('\n' ∉ ·) where
  append hs ht hm := (List.mem_append.mp hm).elim hs ht
  plain h := h '\n' (by decide)

/-- A text that the count of parentheses passes over: it leaves no parenthesis and no quotation open
and begins no comment. -/
def IsNeutral (t : Text) : Prop := ∀ rest, parenDelta none (t ++ rest) = parenDelta none rest

theorem isNeutral_of_isPlain (h : IsPlain t) : IsNeutral t := by
  intro rest
  induction t with
  | nil => rfl
  | cons a t ih =>
    have hne : ∀ c ∈ marks, a ≠ c := fun c hc heq => h c hc (heq ▸ List.mem_cons_self)
    have hquoted : ¬ (decide (a = '"') || decide (a = '\'')) = true := by
      simp [hne '"' (by decide), hne '\'' (by decide)]
    rw [List.cons_append, parenDelta, if_neg hquoted, if_neg (hne '(' (by decide)),
      if_neg (hne ')' (by decide)), if_neg (hne '#' (by decide))]
    exact ih fun c hc hm => h c hc (List.mem_cons_of_mem a hm)

theorem isAdditive_isNeutral : IsAdditive IsNeutral where
  append hs ht rest := by rw [List.append_assoc, hs, ht]
  plain := isNeutral_of_isPlain

/-- Inside of quotation marks, any character but the mark and the backslash is passed over. -/
theorem parenDelta_some_of_ne {mark : Char} (hb : c ≠ '\\') (hm : c ≠ mark) (rest : Text) :
    parenDelta (some mark) (c :: rest) = parenDelta (some mark) rest := by
  rw [parenDelta.eq_def]
  simp [hb, hm]

theorem parenDelta_some_mark {mark : Char} (hb : mark ≠ '\\') (rest : Text) :
    parenDelta (some mark) (mark :: rest) = parenDelta none rest := by
  rw [parenDelta.eq_def]
  simp [hb]

/-- In quotation marks, what is escaped is passed over up to the closing mark. -/
theorem parenDelta_escaped (t rest : Text) :
    parenDelta (some '"') (escaped t ++ '"' :: rest) = parenDelta none rest := by
  induction t with
  | nil => exact parenDelta_some_mark (by decide) rest
  | cons c r ih =>
    rw [escaped_cons]
    by_cases hb : c = '\\'
    · simp [hb, parenDelta, ih]
    by_cases hm : c = '"'
    · simp [hm, parenDelta, ih]
    · simpa [hb, hm, parenDelta_some_of_ne hb hm] using ih

/-- **A quoted text is passed over**, whatever it says. -/
theorem isNeutral_quote (t : Text) : IsNeutral (quote t) := by
  intro rest
  have h := parenDelta_escaped t rest
  rw [quote_eq]
  simpa [parenDelta] using h

variable {value : Json}

/-- **A literal is passed over** if no text of the value is an expression. -/
theorem isNeutral_literal (h : ∀ s ∈ value.strings, isExpression s = false) :
    IsNeutral (literal value) := by
  have hquote : ∀ s ∈ value.texts, IsNeutral (quote s) := fun s _ => isNeutral_quote s
  refine isAdditive_isNeutral.literal value hquote fun s hs hexpression => ?_
  rw [h s hs] at hexpression
  cases hexpression

/-- **An entry of a mapping is passed over** with the comma behind it, whatever its key says, if no
text of its value is an expression. -/
theorem parenDelta_entry (h : ∀ s ∈ value.strings, isExpression s = false) (key rest : Text) :
    parenDelta none (quote key ++ ": ".toList ++ literal value ++ ",".toList ++ rest) =
      parenDelta none rest := by
  have hlead := isAdditive_isNeutral.append (isNeutral_quote key)
    (isNeutral_of_isPlain (t := ": ".toList) (by decide))
  have hentry := isAdditive_isNeutral.append hlead (isNeutral_literal h)
  have hcomma : IsNeutral ",".toList := isNeutral_of_isPlain (by decide)
  exact isAdditive_isNeutral.append hentry hcomma rest

/-- A nested value with texts that end in backslashes, begin a quotation or a comment, or open a
parenthesis, and with keys that would be expressions if they were not keys. -/
def markedValue : Json :=
  .obj [("showifdef(".toList, .arr [.str "\\".toList, .str "it's \"(".toList, .obj []]),
    ("user_info(".toList, .obj [("#)".toList, .str "# a".toList), ([], .float (.infinity true))]),
    ("'".toList, .arr [.int (-7), .null, .bool true, .str "\\\"".toList])]

/-- An entry with such a value in front of a call that is left open. -/
theorem parenDelta_entry_markedValue :
    (∀ s ∈ markedValue.strings, isExpression s = false) ∧
      parenDelta none (quote "k\\".toList ++ ": ".toList ++ literal markedValue ++ ",".toList ++
        " f(')', (".toList) = 2 := by
  have h : ∀ s ∈ markedValue.strings, isExpression s = false := by decide +kernel
  have hopen : parenDelta none " f(')', (".toList = 2 := by decide +kernel
  exact ⟨h, (parenDelta_entry h "k\\".toList _).trans hopen⟩

end Script

/-- **Data without expressions are balanced**: no entry opens or closes a parenthesis. -/
theorem Snapshot.isBalanced_of_strings {args : Snapshot}
    (h : ∀ t ∈ args.strings, isExpression t = false) : args.IsBalanced := by
  have hneutral : ∀ entry ∈ args.entryTexts, IsNeutral entry :=
    isAdditive_isNeutral.entryTexts (fun t _ => isNeutral_quote t) fun t ht hexpression => by
      rw [h t ht] at hexpression
      cases hexpression
  have hzero : args.entryTexts.map (parenDelta none) =
      List.replicate args.entryTexts.length 0 := by
    refine List.eq_replicate_iff.mpr ⟨List.length_map _, ?_⟩
    intro delta hdelta
    obtain ⟨entry, hentry, rfl⟩ := List.mem_map.mp hdelta
    have hentry' := hneutral entry hentry []
    rwa [List.append_nil] at hentry'
  constructor
  · intro k
    rw [List.map_take, hzero, List.take_replicate]
    simp
  · rw [hzero]
    simp

end InterviewPlan
