import Runbook.Proofs.ReadGuarantees

/-! Tidy text: what trimming leaves alone. Ids, references, conditions and variable names are tidy
once they have been read or made, so that reading them a second time changes nothing. -/
namespace Runbook

namespace Text

/-- The text is not empty, and neither its first nor its last character is blank. -/
def Tidy (s : String) : Prop :=
  (∃ c ∈ s.toList.head?, isBlank c = false) ∧ ∃ c ∈ s.toList.getLast?, isBlank c = false

theorem dropWhile_eq_self {p : Char → Bool} {cs : List Char} (h : ∃ c ∈ cs.head?, p c = false) :
    cs.dropWhile p = cs := by
  obtain ⟨c, hc, hp⟩ := h
  cases cs with
  | nil => rfl
  | cons d rest =>
    obtain rfl : d = c := by simpa using hc
    simp [hp]

theorem trimChars_eq_self {p : Char → Bool} {cs : List Char} (hfirst : ∃ c ∈ cs.head?, p c = false)
    (hlast : ∃ c ∈ cs.getLast?, p c = false) : trimChars p cs = cs := by
  rw [trimChars, dropWhile_eq_self hfirst, dropWhile_eq_self (by simpa using hlast),
    List.reverse_reverse]

theorem Tidy.trim_eq {s : String} (h : Tidy s) : trim s = s := by
  rw [trim, trimChars_eq_self h.1 h.2, String.ofList_toList]

theorem Tidy.allBlank_eq {s : String} (h : Tidy s) : allBlank s = false := by
  obtain ⟨c, hc, hb⟩ := h.1
  exact List.all_eq_false.2 ⟨c, List.mem_of_head? hc, by simp [hb]⟩

theorem Tidy.ne_empty {s : String} (h : Tidy s) : s ≠ "" := by
  rintro rfl
  cases h.allBlank_eq

theorem head?_dropWhile {p : Char → Bool} {cs : List Char} (h : cs.dropWhile p ≠ []) :
    ∃ c ∈ (cs.dropWhile p).head?, p c = false := by
  have hhead := List.head?_dropWhile_not p cs
  cases hc : (cs.dropWhile p).head? with
  | none => exact absurd (List.head?_eq_none_iff.1 hc) h
  | some c => exact ⟨c, rfl, by simpa [hc] using hhead⟩

theorem tidy_trim {s : String} (h : allBlank s = false) : Tidy (trim s) := by
  have hne : trimChars isBlank s.toList ≠ [] := trimChars_ne_nil h
  have hback : (s.toList.dropWhile isBlank).reverse.dropWhile isBlank ≠ [] := by
    simpa [trimChars] using hne
  have hfront : s.toList.dropWhile isBlank ≠ [] := by
    intro hnil
    simp [hnil] at hback
  rw [Tidy, trim, String.toList_ofList]
  refine ⟨?_, by simpa [trimChars] using head?_dropWhile hback⟩
  -- What is kept is a prefix of what dropping the blanks in front leaves.
  obtain ⟨dropped, hdropped⟩ : trimChars isBlank s.toList <+: s.toList.dropWhile isBlank := by
    simpa [trimChars] using (List.reverse_prefix.2 (List.dropWhile_suffix (l :=
      (s.toList.dropWhile isBlank).reverse) isBlank))
  obtain ⟨c, hc, hb⟩ := head?_dropWhile hfront
  rw [← hdropped, List.head?_append, Option.or_of_isSome (by simpa using hne)] at hc
  exact ⟨c, hc, hb⟩

theorem tidy_of_forall {s : String} (hne : s ≠ "") (h : ∀ c ∈ s.toList, isBlank c = false) :
    Tidy s := by
  have hlist : s.toList ≠ [] := by simpa using hne
  exact ⟨⟨s.toList.head hlist, List.head?_eq_some_head hlist, h _ (List.head_mem hlist)⟩,
    s.toList.getLast hlist, List.getLast?_eq_some_getLast hlist, h _ (List.getLast_mem hlist)⟩

theorem Tidy.append {s t : String} (hs : Tidy s) (ht : Tidy t) : Tidy (s ++ t) := by
  obtain ⟨c, hc, hfirst⟩ := hs.1
  obtain ⟨d, hd, hlast⟩ := ht.2
  refine ⟨⟨c, ?_, hfirst⟩, d, ?_, hlast⟩
  · simp [String.toList_append, List.head?_append, show s.toList.head? = some c from hc]
  · simp [String.toList_append, List.getLast?_append, show t.toList.getLast? = some d from hd]

theorem isBlank_eq_false {c : Char} (h : 33 ≤ c.toNat ∧ c.toNat < 127) : isBlank c = false := by
  simp only [isBlank, Bool.or_eq_false_iff, Bool.and_eq_false_iff, decide_eq_false_iff_not,
    beq_eq_false_iff_ne]
  omega

theorem isBlank_of_all {s : String} {c : Char} (h : s.toList.all (!isBlank ·) = true)
    (hc : c ∈ s.toList) : isBlank c = false := by
  simpa using List.all_eq_true.1 h c hc

theorem isBlank_of_isDigit {c : Char} (h : c.isDigit = true) : isBlank c = false := by
  simp only [Char.isDigit, Bool.and_eq_true, decide_eq_true_eq, ge_iff_le,
    UInt32.le_iff_toNat_le] at h
  have hlow : 48 ≤ c.toNat := h.1
  have hhigh : c.toNat ≤ 57 := h.2
  exact isBlank_eq_false (by omega)

theorem isBlank_of_mem_toDigits {c : Char} {n : Nat} (h : c ∈ Nat.toDigits 10 n) :
    isBlank c = false :=
  isBlank_of_isDigit (Nat.isDigit_of_mem_toDigits (by omega) (by omega) h)

end Text

namespace Binary64
open Text

theorem isBlank_of_mem_writeDigits {style : Style} {ds : List Char} {place : Int} {c : Char}
    (hds : ∀ c ∈ ds, isBlank c = false) (h : c ∈ writeDigits style ds place) :
    isBlank c = false := by
  have hzeros : ∀ n, c ∈ zeros n → isBlank c = false := by
    intro n hc
    rw [List.eq_of_mem_replicate hc]
    rfl
  have hexponent : ∀ e, c ∈ writeExponent style e → isBlank c = false := by
    intro e hc
    simp only [writeExponent, List.mem_append] at hc
    obtain (hc | hc) | hc := hc
    · split at hc
      · rw [List.mem_singleton.1 hc]
        rfl
      · split at hc
        · rw [List.mem_singleton.1 hc]
          rfl
        · cases hc
    · exact hzeros _ hc
    · exact isBlank_of_mem_toDigits hc
  have hpart : ∀ part : List Char, part.Sublist ds → c ∈ part → isBlank c = false :=
    fun part hpart hc => hds c (hpart.mem hc)
  unfold writeDigits at h
  split at h
  · split at h
    · simp only [List.mem_cons, List.mem_append] at h
      obtain (rfl | rfl | hc) | hc := h
      · rfl
      · rfl
      · exact hzeros _ hc
      · exact hds c hc
    · simp only [List.mem_append, List.mem_cons] at h
      obtain (hc | hc) | rfl | hc := h
      · exact hpart _ (List.take_sublist ..) hc
      · exact hzeros _ hc
      · rfl
      · split at hc
        · rw [List.mem_singleton.1 hc]
          rfl
        · exact hpart _ (List.drop_sublist ..) hc
  · simp only [List.mem_append, List.mem_cons] at h
    obtain (hc | hc) | rfl | hc := h
    · exact hpart _ (List.take_sublist ..) hc
    · split at hc
      · cases hc
      · obtain rfl | hc := List.mem_cons.1 hc
        · rfl
        · exact hpart _ (List.drop_sublist ..) hc
    · rfl
    · exact hexponent _ hc

theorem tidy_write (style : Style) (x : Binary64) : Tidy (x.write style) := by
  refine tidy_of_forall (x.write_ne_empty style) fun c hc => ?_
  cases x with
  | nan =>
    exact isBlank_of_all (s := "nan") (by decide) hc
  | inf negative =>
    cases negative with
    | false =>
      exact isBlank_of_all (s := "inf") (by decide) hc
    | true =>
      exact isBlank_of_all (s := "-inf") (by decide) hc
  | finite negative code =>
    have hbody : ∀ ds place, (∀ c ∈ ds, isBlank c = false) →
        c ∈ (if negative then '-' :: writeDigits style ds place
          else writeDigits style ds place) → isBlank c = false := by
      intro ds place hds hc
      split at hc
      · obtain rfl | hc := List.mem_cons.1 hc
        · rfl
        · exact isBlank_of_mem_writeDigits hds hc
      · exact isBlank_of_mem_writeDigits hds hc
    simp only [write, String.toList_ofList] at hc
    by_cases hzero : code.val = 0
    · rw [if_pos hzero] at hc
      exact hbody ['0'] 1 (List.forall_mem_singleton.2 rfl) hc
    · rw [if_neg hzero] at hc
      refine hbody _ _ (fun d hd => ?_) hc
      have hmem : d ∈ Nat.toDigits 10 (shortest code).digits := by
        rw [dropTrailingZeros, List.mem_reverse] at hd
        simpa using (List.dropWhile_sublist _).mem hd
      exact isBlank_of_mem_toDigits hmem

end Binary64

theorem Number.tidy_display (n : Number) : Text.Tidy n.display := by
  cases n with
  | real x => exact x.tidy_write _
  | whole n =>
    refine Text.tidy_of_forall (Number.display_ne_empty _) fun c hc => ?_
    cases n with
    | ofNat n =>
      exact Text.isBlank_of_mem_toDigits (by simpa [display, toString, Int.repr, Nat.repr] using hc)
    | negSucc n =>
      have hc : c = '-' ∨ c ∈ Nat.toDigits 10 (n + 1) := by
        simpa [display, toString, Int.repr, Nat.repr] using hc
      obtain rfl | hc := hc
      · rfl
      · exact Text.isBlank_of_mem_toDigits hc

theorem Value.tidy_display {v : Value} (h : ∀ s, v ≠ .text s) : Text.Tidy v.display := by
  have hbraces : ∀ (first last : Char) (s : String), Text.isBlank first = false →
      Text.isBlank last = false →
      Text.Tidy (String.singleton first ++ s ++ String.singleton last) := by
    intro first last s hfirst hlast
    refine ⟨⟨first, by simp, hfirst⟩, last, ?_, hlast⟩
    simp only [String.toList_append, String.toList_singleton]
    exact List.getLast?_concat
  cases v with
  | null => exact ⟨⟨'N', rfl, rfl⟩, 'e', rfl, rfl⟩
  | flag b =>
    cases b
    · exact ⟨⟨'F', rfl, rfl⟩, 'e', rfl, rfl⟩
    · exact ⟨⟨'T', rfl, rfl⟩, 'e', rfl, rfl⟩
  | whole n => exact Number.tidy_display (.whole n)
  | real x => exact Number.tidy_display (.real x)
  | text s => exact absurd rfl (h s)
  | list items => exact hbraces '[' ']' _ rfl rfl
  | record fields => exact hbraces '\x7b' '\x7d' _ rfl rfl

namespace Definition.Naming

theorem tidy_candidate {base : String} (h : Text.Tidy base) (k : Nat) :
    Text.Tidy (candidate base k) := by
  unfold candidate
  split
  · exact h
  · have hline : Text.Tidy "_" := ⟨⟨'_', rfl, rfl⟩, '_', rfl, rfl⟩
    exact (h.append hline).append (Number.tidy_display (.whole k))

theorem tidy_firstFree {base : String} (h : Text.Tidy base) (taken : List String) :
    Text.Tidy (firstFree base taken) := by
  unfold firstFree
  simp only
  cases hfind : ((List.range' 1 (taken.length + 1)).map (candidate base)).find?
      (!taken.contains ·) with
  | none => exact h
  | some name =>
    obtain ⟨k, -, rfl⟩ := List.mem_map.1 (List.mem_of_find?_eq_some hfind)
    exact tidy_candidate h k

end Definition.Naming

namespace Reading

theorem tidy_reference? {v : Value} {s : String} (h : reference? v = some s) : Text.Tidy s := by
  cases v with
  | null => cases h
  | text t =>
    cases hb : Text.allBlank t with
    | true => simp [reference?, hb] at h
    | false =>
      obtain rfl : Text.trim t = s := by simpa [reference?, hb] using h
      exact Text.tidy_trim hb
  | _ =>
    simp only [reference?, Option.some.injEq] at h
    exact h ▸ Value.tidy_display (by simp)

theorem tidy_trimmedText {v : Value} (h : (trimmedText v).faults = []) :
    ∀ s ∈ (trimmedText v).value, Text.Tidy s := by
  cases v with
  | null => exact nofun
  | text t =>
    cases hb : Text.allBlank t with
    | true => simp [trimmedText, Value.trimmed, hb, optionalText, optional]
    | false =>
      intro s hs
      obtain rfl : Text.trim t = s := by
        simpa [trimmedText, Value.trimmed, hb, optionalText, optional, text] using hs
      exact Text.tidy_trim hb
  | _ => simp [trimmedText, Value.trimmed, optionalText, optional, text, fault] at h

theorem reference_ofText? {o : Option String} (h : ∀ s ∈ o, Text.Tidy s) :
    reference (.ofText? o) = pure o := by
  cases o with
  | none => rfl
  | some s => simp [reference, Value.ofText?, reference?, (h s rfl).allBlank_eq, (h s rfl).trim_eq]

theorem trimmedText_ofText? {o : Option String} (h : ∀ s ∈ o, Text.Tidy s) :
    trimmedText (.ofText? o) = pure o := by
  cases o with
  | none => rfl
  | some s =>
    simp only [trimmedText, Value.ofText?, Value.trimmed, (h s rfl).allBlank_eq,
      (h s rfl).trim_eq]
    rfl

theorem optionalText_ofText? (o : Option String) : optionalText (.ofText? o) = pure o := by
  cases o <;> rfl

end Reading
end Runbook
