import Mathlib.Data.List.Chain
import Mathlib.Data.List.DropRight
import Runbook.Proofs.TidyText

/-! What the names made from titles look like: words of small letters and digits, with one low line
between each two, and no more than thirty characters in all. A name of this form is its own name, so
the names that titles give are exactly those. -/
namespace Runbook.VariableName
open Text

/-- A run of letters `a` to `z` and digits `0` to `9`, at least one. -/
structure IsWord (w : List Char) : Prop where
  ne_nil : w ≠ []
  chars : ∀ c ∈ w, ('a' ≤ c ∧ c ≤ 'z') ∨ ('0' ≤ c ∧ c ≤ '9')

/-- Words, and one low line between each two of them. -/
inductive Joined : List Char → Prop where
  | word {w : List Char} : IsWord w → Joined w
  | line {w cs : List Char} : IsWord w → Joined cs → Joined (w ++ '_' :: cs)

/-- No low line in front, none at the end, and no two in a row. -/
structure Spaced (cs : List Char) : Prop where
  first : cs.head? ≠ some '_'
  last : cs.getLast? ≠ some '_'
  single : ¬['_', '_'] <:+: cs

/-- The form of the names that titles give: one to thirty characters, which are words with low
lines between them. -/
structure IsIdentifier (name : String) : Prop where
  length_pos : 1 ≤ name.length
  length_le : name.length ≤ 30
  joined : Joined name.toList

/-- A character of a name: one of a word, or the low line. -/
def isPart (c : Char) : Bool := isNameChar c || c == '_'

section Characters
variable {c : Char} {cs before : List Char}

theorem isNameChar_iff : isNameChar c = true ↔ ('a' ≤ c ∧ c ≤ 'z') ∨ ('0' ≤ c ∧ c ≤ '9') := by
  simp [isNameChar]

theorem isPart_of_isNameChar (h : isNameChar c = true) : isPart c = true := by simp [isPart, h]

theorem ne_line_of_isNameChar (h : isNameChar c = true) : c ≠ '_' := by
  rintro rfl
  exact absurd h (by decide)

theorem toNat_of_isPart (h : isPart c = true) :
    c.toNat = 95 ∨ (48 ≤ c.toNat ∧ c.toNat ≤ 57) ∨ (97 ≤ c.toNat ∧ c.toNat ≤ 122) := by
  rw [isPart, Bool.or_eq_true, isNameChar_iff, beq_iff_eq] at h
  obtain (hletter | hdigit) | rfl := h
  · exact .inr (.inr hletter)
  · exact .inr (.inl hdigit)
  · exact .inl rfl

theorem isBlank_of_isPart (h : isPart c = true) : isBlank c = false := by
  have hcode := toNat_of_isPart h
  exact isBlank_eq_false (by omega)

theorem isPunctuation_of_isPart (h : isPart c = true) : isPunctuation c = false := by
  -- The marks are told from these characters one by one.
  have hmarks : (Char.ofNat 39 :: "?!.,;:\"()[]\x7b\x7d".toList).all (!isPart ·) = true := by decide
  by_contra hp
  simp only [isPunctuation, Bool.not_eq_false, Bool.or_eq_true, beq_iff_eq,
    List.contains_iff_mem] at hp
  have hmark := List.all_eq_true.1 hmarks c (List.mem_cons.2 hp.symm)
  simp [h] at hmark

theorem lowerChar_of_isPart (h : isPart c = true) : lowerChar c = [c] := by
  have hcode := toNat_of_isPart h
  have hcapital : ¬('A'.val ≤ c.val ∧ c.val ≤ 'Z'.val) := by
    rintro ⟨hlow, hhigh⟩
    have hlow : 65 ≤ c.toNat := hlow
    have hhigh : c.toNat ≤ 90 := hhigh
    omega
  have hsmall : c.toLower = c := dif_neg hcapital
  rw [lowerChar, if_pos (by omega), hsmall]

theorem lowerFrom_eq_self (h : ∀ c ∈ cs, isPart c = true) : lowerFrom before cs = cs := by
  induction cs generalizing before with
  | nil => rfl
  | cons c cs ih =>
    obtain ⟨hc, hcs⟩ := List.forall_mem_cons.1 h
    have hcode := toNat_of_isPart hc
    rw [lowerFrom, if_neg (by omega), lowerChar_of_isPart hc, ih hcs]
    rfl

end Characters

section Shape
variable {c : Char} {w cs p : List Char}

theorem IsWord.nameChars (hw : IsWord w) : ∀ c ∈ w, isNameChar c = true :=
  fun c hc => isNameChar_iff.2 (hw.chars c hc)

theorem isWord_singleton (hc : isNameChar c = true) : IsWord [c] :=
  ⟨List.cons_ne_nil _ _, List.forall_mem_singleton.2 (isNameChar_iff.1 hc)⟩

theorem IsWord.cons (hw : IsWord w) (hc : isNameChar c = true) : IsWord (c :: w) :=
  ⟨List.cons_ne_nil _ _, List.forall_mem_cons.2 ⟨isNameChar_iff.1 hc, hw.chars⟩⟩

theorem IsWord.exists_cons (hw : IsWord w) : ∃ c rest, w = c :: rest ∧ isNameChar c = true := by
  obtain ⟨c, rest, rfl⟩ := List.exists_cons_of_ne_nil hw.ne_nil
  exact ⟨c, rest, rfl, hw.nameChars c (.head _)⟩

theorem IsWord.getLast?_ne (hw : IsWord w) : w.getLast? ≠ some '_' := fun hlast =>
  ne_line_of_isNameChar (hw.nameChars _ (List.mem_of_getLast? hlast)) rfl

theorem IsWord.isChain (hw : IsWord w) : w.IsChain fun a b => a ≠ '_' ∨ b ≠ '_' :=
  (List.pairwise_iff_forall_sublist.2 fun hsub =>
    .inl (ne_line_of_isNameChar (hw.nameChars _ (hsub.subset (.head _))))).isChain

theorem IsWord.of_prefix (hw : IsWord w) (hp : p <+: w) (hne : p ≠ []) : IsWord p :=
  ⟨hne, fun c hc => hw.chars c (hp.subset hc)⟩

theorem Joined.cons (h : Joined cs) (hc : isNameChar c = true) : Joined (c :: cs) := by
  cases h with
  | word hw => exact .word (hw.cons hc)
  | line hw h => exact .line (hw.cons hc) h

theorem Joined.exists_cons (h : Joined cs) : ∃ c rest, cs = c :: rest ∧ isNameChar c = true := by
  cases h with
  | word hw => exact hw.exists_cons
  | line hw _ =>
    obtain ⟨c, rest, rfl, hc⟩ := hw.exists_cons
    exact ⟨c, _, rfl, hc⟩

theorem Joined.parts (h : Joined cs) : ∀ c ∈ cs, isPart c = true := by
  induction h with
  | word hw => exact fun c hc => isPart_of_isNameChar (hw.nameChars c hc)
  | line hw _ ih =>
    intro c hc
    obtain hc | hc := List.mem_append.1 hc
    · exact isPart_of_isNameChar (hw.nameChars c hc)
    · obtain rfl | hc := List.mem_cons.1 hc
      · rfl
      · exact ih c hc

theorem Joined.getLast?_ne (h : Joined cs) : cs.getLast? ≠ some '_' := by
  induction h with
  | word hw => exact hw.getLast?_ne
  | line hw h ih =>
    obtain ⟨c, rest, rfl, -⟩ := h.exists_cons
    simpa [List.getLast?_append] using ih

theorem Joined.isChain (h : Joined cs) : cs.IsChain fun a b => a ≠ '_' ∨ b ≠ '_' := by
  induction h with
  | word hw => exact hw.isChain
  | line hw h ih =>
    obtain ⟨c, rest, rfl, hc⟩ := h.exists_cons
    refine List.isChain_append.2 ⟨hw.isChain, List.isChain_cons_cons.2 ⟨?_, ih⟩, ?_⟩
    · exact .inr (ne_line_of_isNameChar hc)
    · exact fun a ha _ _ => .inl (ne_line_of_isNameChar (hw.nameChars a (List.mem_of_getLast? ha)))

theorem Joined.spaced (h : Joined cs) : Spaced cs := by
  obtain ⟨c, rest, hcs, hc⟩ := h.exists_cons
  refine ⟨?_, h.getLast?_ne, fun hinfix => ?_⟩
  · simpa [hcs] using ne_line_of_isNameChar hc
  · simpa using h.isChain.infix hinfix

theorem Joined.of_prefix (h : Joined cs) (hp : p <+: cs) (hne : p ≠ [])
    (hlast : p.getLast? ≠ some '_') : Joined p := by
  induction h generalizing p with
  | word hw => exact .word (hw.of_prefix hp hne)
  | @line w cs hw _ ih =>
    obtain hp | ⟨q, rfl⟩ := List.prefix_or_prefix_of_prefix hp (List.prefix_append w _)
    · exact .word (hw.of_prefix hp hne)
    · -- The cut lies behind the word: nothing follows it, or the low line and more than that.
      obtain rfl | ⟨q, rfl, hq⟩ := List.prefix_cons_iff.1 ((List.prefix_append_right_inj w).1 hp)
      · rw [List.append_nil]
        exact .word hw
      · have hqne : q ≠ [] := by
          rintro rfl
          simp at hlast
        refine .line hw (ih hq hqne ?_)
        obtain ⟨c, rest, rfl⟩ := List.exists_cons_of_ne_nil hqne
        simpa [List.getLast?_append] using hlast

theorem joined_joinWords (hc : isNameChar c = true) (gap : Bool) (cs : List Char) :
    Joined (c :: joinWords gap cs) := by
  induction cs generalizing c gap with
  | nil => exact .word (isWord_singleton hc)
  | cons d cs ih =>
    rw [joinWords]
    split
    · next hd =>
      cases gap with
      | false => exact (ih hd false).cons hc
      | true => exact .line (isWord_singleton hc) (ih hd false)
    · exact ih hc true

theorem joinWords_word (hw : ∀ c ∈ w, isNameChar c = true) (cs : List Char) :
    joinWords false (w ++ cs) = w ++ joinWords false cs := by
  induction w with
  | nil => rfl
  | cons c w ih =>
    obtain ⟨hc, hw⟩ := List.forall_mem_cons.1 hw
    simp [joinWords, hc, ih hw]

theorem Joined.joinWords_eq (h : Joined cs) : joinWords false cs = cs := by
  induction h with
  | @word w hw => simpa [joinWords] using joinWords_word hw.nameChars []
  | @line w cs hw h ih =>
    obtain ⟨c, rest, rfl, hc⟩ := h.exists_cons
    have hline : joinWords false ('_' :: c :: rest) = '_' :: joinWords false (c :: rest) := by
      simp [joinWords, hc, show isNameChar '_' = false by decide]
    rw [joinWords_word hw.nameChars, hline, ih]

end Shape

section Names
variable {cs : List Char} {title name : String}

theorem dropLowLines_eq (cs : List Char) : dropLowLines cs = cs.rdropWhile (· == '_') := rfl

theorem length_ofChars_le (cs : List Char) : (ofChars cs).length ≤ 30 :=
  (List.rdropWhile_prefix ..).length_le.trans (List.length_take_le ..)

theorem joined_ofChars (h : ofChars cs ≠ []) : Joined (ofChars cs) := by
  unfold ofChars at h ⊢
  simp only [dropLowLines_eq] at h ⊢
  generalize lowerFrom [] ((trimChars isBlank cs).filter (!isPunctuation ·)) = small at h ⊢
  have hwords : Joined (joinWords false (small.dropWhile (!isNameChar ·))) := by
    have hne : small.dropWhile (!isNameChar ·) ≠ [] := by
      intro hnil
      simp [hnil, joinWords] at h
    obtain ⟨c, hc, hname⟩ := head?_dropWhile hne
    obtain ⟨rest, hrest⟩ := List.head?_eq_some_iff.1 hc
    have hname : isNameChar c = true := by simpa using hname
    have hfirst : joinWords false (c :: rest) = c :: joinWords false rest :=
      joinWords_word (List.forall_mem_singleton.2 hname) rest
    rw [hrest, hfirst]
    exact joined_joinWords hname false rest
  refine hwords.of_prefix ((List.rdropWhile_prefix ..).trans (List.take_prefix ..)) h ?_
  -- The low lines at the end are those that a cut behind a word leaves.
  have hlast := List.rdropWhile_last_not (· == '_') _ h
  rw [List.getLast?_eq_some_getLast h]
  simpa using hlast

theorem Joined.ofChars_eq (h : Joined cs) (hlength : cs.length ≤ 30) : ofChars cs = cs := by
  obtain ⟨c, rest, hcs, hc⟩ := h.exists_cons
  have hblank : ∀ d ∈ cs, isBlank d = false := fun d hd => isBlank_of_isPart (h.parts d hd)
  have htrim : trimChars isBlank cs = cs := by
    have hne : cs ≠ [] := by simp [hcs]
    exact trimChars_eq_self
      ⟨_, List.head?_eq_some_head hne, hblank _ (List.head_mem hne)⟩
      ⟨_, List.getLast?_eq_some_getLast hne, hblank _ (List.getLast_mem hne)⟩
  have hkept : cs.filter (!isPunctuation ·) = cs :=
    List.filter_eq_self.2 fun d hd => by simp [isPunctuation_of_isPart (h.parts d hd)]
  have hfront : cs.dropWhile (!isNameChar ·) = cs :=
    dropWhile_eq_self ⟨c, by simp [hcs], by simp [hc]⟩
  have hend : dropLowLines cs = cs := List.rdropWhile_eq_self_iff.2 fun hne hline =>
    h.getLast?_ne (by rw [List.getLast?_eq_some_getLast hne, beq_iff_eq.1 hline])
  simp only [ofChars, htrim, hkept, lowerFrom_eq_self h.parts, hfront, h.joinWords_eq]
  rw [List.take_of_length_le (show cs.length ≤ maxLength from hlength), hend]

theorem ofTitle?_eq_some_iff :
    ofTitle? title = some name ↔ ofChars title.toList = name.toList ∧ name.toList ≠ [] := by
  unfold ofTitle?
  split
  · next hnil => exact iff_of_false (by simp) fun h => h.2 (h.1.symm.trans hnil)
  · next cs hne =>
    rw [Option.some.injEq, ← String.toList_inj, String.toList_ofList]
    exact ⟨fun h => ⟨h, fun hnil => hne (h.trans hnil)⟩, And.left⟩

theorem isIdentifier_of_ofTitle? (h : ofTitle? title = some name) : IsIdentifier name := by
  obtain ⟨hchars, hne⟩ := ofTitle?_eq_some_iff.1 h
  refine ⟨?_, ?_, ?_⟩
  · rw [← String.length_toList]
    exact List.length_pos_iff.2 hne
  · rw [← String.length_toList, ← hchars]
    exact length_ofChars_le title.toList
  · rw [← hchars] at hne ⊢
    exact joined_ofChars hne

theorem IsIdentifier.toList_ne_nil (h : IsIdentifier name) : name.toList ≠ [] := by
  obtain ⟨c, rest, hcs, -⟩ := h.joined.exists_cons
  simp [hcs]

theorem IsIdentifier.ofTitle?_eq (h : IsIdentifier name) : ofTitle? name = some name := by
  refine ofTitle?_eq_some_iff.2 ⟨h.joined.ofChars_eq ?_, h.toList_ne_nil⟩
  rw [String.length_toList]
  exact h.length_le

theorem IsIdentifier.tidy (h : IsIdentifier name) : Tidy name :=
  tidy_of_forall (by simpa using h.toList_ne_nil) fun c hc =>
    isBlank_of_isPart (h.joined.parts c hc)

theorem tidy_ofTitle? (h : ofTitle? title = some name) : Tidy name :=
  (isIdentifier_of_ofTitle? h).tidy

theorem ofValue?_text (h : Tidy name) : ofValue? (.text name) = ofTitle? name := by
  simp [ofValue?, Value.present, h.allBlank_eq, Value.display]

/-- A title gives no name, or one of one to thirty characters that is made of words of letters `a`
to `z` and digits with single low lines between them, so that none stands in front, at the end or
beside another; and this name is its own name. So is every text of this form. -/
theorem ofValue?_isIdentifier (title : Value) :
    (ofValue? title = none ∨ ∃ name, ofValue? title = some name ∧ IsIdentifier name ∧
      Spaced name.toList ∧ ofValue? (.text name) = some name) ∧
    ∀ name, ofValue? (.text name) = some name ↔ IsIdentifier name := by
  have hform : ∀ v name, ofValue? v = some name → IsIdentifier name := by
    intro v name h
    unfold ofValue? at h
    split at h
    · exact isIdentifier_of_ofTitle? h
    · cases h
  have hfixed : ∀ name, IsIdentifier name → ofValue? (.text name) = some name := fun name h => by
    rw [ofValue?_text h.tidy, h.ofTitle?_eq]
  refine ⟨?_, fun name => ⟨hform _ name, hfixed name⟩⟩
  cases htitle : ofValue? title with
  | none => exact .inl rfl
  | some name =>
    have h := hform title name htitle
    exact .inr ⟨name, rfl, h, h.joined.spaced, hfixed name h⟩

/-- Thirty characters end behind a word here, so that the low line is dropped. -/
example : ofTitle? (" \"Word,\" " ++ "word-(Word) " ++ "word & word word Word?") =
    some "word_word_word_word_word_word" := by decide +kernel

end Names
end Runbook.VariableName
