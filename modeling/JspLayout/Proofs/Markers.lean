import Mathlib.Combinatorics.Pigeonhole
import Mathlib.Order.Interval.Finset.Nat
import JspLayout.Proofs.Occurrence
import JspLayout.Marker.Basic

/-! Markers and where they are found.

    The name of a marker is made of letters, digits and hyphens, so an occurrence of it never reaches
    across the first character of a marker. A marker is therefore found at its own place as soon as
    the text before it does not hold the name, however the marker is spaced. -/

namespace JspLayout

open Text

/-! ### Numbers -/

namespace Text

theorem isDigit_digitChar {d : Nat} (h : d < 10) : (digitChar d).isDigit = true := by
  have : ∀ d : Fin 10, (digitChar d).isDigit = true := by decide
  exact this ⟨d, h⟩

theorem isDigit_ofNat (n : Nat) : ∀ c ∈ ofNat n, c.isDigit = true := by
  induction n using Nat.strongRecOn with
  | _ n ih =>
    rw [ofNat, digits]
    split
    · next h => simpa using isDigit_digitChar (by omega)
    · next h =>
      intro c hc
      rcases List.mem_append.mp hc with hc | hc
      · exact ih (n / 10) (by omega) c hc
      · rw [List.mem_singleton.mp hc]
        exact isDigit_digitChar (by omega)

theorem ofNat_ne_nil (n : Nat) : ofNat n ≠ [] := by
  rw [ofNat, digits]
  split <;> simp

/-- The number that decimal digits are the notation of. -/
def value (s : Text) : Nat := s.foldl (fun v c => 10 * v + (c.toNat - 48)) 0

theorem value_ofNat (n : Nat) : value (ofNat n) = n := by
  have hdigit : ∀ d : Fin 10, (digitChar d).toNat - 48 = d := by decide
  induction n using Nat.strongRecOn with
  | _ n ih =>
    rw [ofNat, digits]
    split
    · next h => simpa [value] using hdigit ⟨n, by omega⟩
    · next h =>
      have hd := hdigit ⟨n % 10, by omega⟩
      have := ih (n / 10) (by omega)
      rw [ofNat, value] at this
      rw [value, List.foldl_append, this, List.foldl_cons, List.foldl_nil, hd]
      exact Nat.div_add_mod n 10

theorem ofNat_inj {n n' : Nat} (h : ofNat n = ofNat n') : n = n' := by
  rw [← value_ofNat n, h, value_ofNat]

/-- Digits before a character that is none are told apart by the number. -/
theorem eq_of_ofNat_append {n n' : Nat} {c : Char} {s s' : Text} (hc : c.isDigit = false)
    (h : ofNat n ++ c :: s = ofNat n' ++ c :: s') : n = n' := by
  have hspan : ∀ (n : Nat) (s : Text), (ofNat n ++ c :: s).takeWhile Char.isDigit = ofNat n := by
    intro n s
    rw [List.takeWhile_append_of_pos (isDigit_ofNat n), List.takeWhile_cons_of_neg (by simp [hc]),
      List.append_nil]
  have := congrArg (List.takeWhile Char.isDigit) h
  rw [hspan, hspan] at this
  exact ofNat_inj this

end Text

/-! ### Names -/

namespace Marker

/-- What the name of a marker is made of. -/
structure IsName (tag : Text) : Prop where
  head : tag.head? = some 'j'
  plain : ∀ c ∈ tag, c.isAlphanum = true ∨ c = '-'

theorem isName_free (page : Text) : IsName (freeMarkerName page) := by
  have hbase : ∀ c ∈ markerName, c.isAlphanum = true := List.all_eq_true.mp (by decide)
  have hnumbered : ∀ n, IsName (numberedName n) := by
    intro n
    refine ⟨rfl, fun c hc => ?_⟩
    rw [numberedName, List.mem_append, List.mem_cons] at hc
    rcases hc with hc | rfl | hc
    · exact Or.inl (hbase c hc)
    · exact Or.inr rfl
    · exact Or.inl (by simp [Char.isAlphanum, isDigit_ofNat n c hc])
  unfold freeMarkerName
  split
  · exact hnumbered _
  · exact ⟨rfl, fun c hc => Or.inl (hbase c hc)⟩

/-- Numbered names that end at the same place of a text are the same: their first letter occurs in
    them once. -/
theorem eq_of_numberedName_isSuffix {n m : Nat} {t : Text} (hn : numberedName n <:+ t)
    (hm : numberedName m <:+ t) : n = m := by
  have hle : ∀ {n m : Nat}, numberedName n <:+ numberedName m → n = m := by
    intro n m h
    have hrest : 'j' ∉ "spfmt-".toList ++ ofNat m := by
      rw [List.mem_append, not_or]
      exact ⟨by decide, fun h => absurd (isDigit_ofNat m 'j' h) (by decide)⟩
    rcases List.suffix_cons_iff.mp (show numberedName n <:+ 'j' :: ("spfmt-".toList ++ ofNat m) from h)
      with he | h
    · exact ofNat_inj (List.append_cancel_left
        (show "jspfmt-".toList ++ ofNat n = "jspfmt-".toList ++ ofNat m from he))
    · exact absurd (h.subset List.mem_cons_self) hrest
  rcases List.suffix_or_suffix_of_suffix hn hm with h | h
  · exact hle h
  · exact (hle h).symm

/-- A page has fewer numbered names in it than characters, since they end at different places. -/
theorem exists_numberedName_free (page : Text) (start : Nat) :
    ∃ n ∈ List.range' start (page.length + 1), ¬numberedName n <:+: page := by
  by_contra hall
  have hends : ∀ n ∈ Finset.Icc start (start + page.length),
      ∃ u, numberedName n <:+ u ∧ u <+: page := by
    intro n hn
    refine List.infix_iff_suffix_prefix.mp (by_contra fun h => hall ⟨n, ?_, h⟩)
    rw [List.mem_range'_1]
    rw [Finset.mem_Icc] at hn
    omega
  choose! u hname hstart using hends
  have hmaps : ∀ n ∈ Finset.Icc start (start + page.length),
      (u n).length ∈ Finset.Icc 1 page.length := by
    intro n hn
    have hpos : 0 < (numberedName n).length := by simp [numberedName]
    exact Finset.mem_Icc.mpr ⟨hpos.trans_le (hname n hn).length_le, (hstart n hn).length_le⟩
  have hcard : (Finset.Icc 1 page.length).card < (Finset.Icc start (start + page.length)).card := by
    rw [Nat.card_Icc, Nat.card_Icc]
    omega
  obtain ⟨n, hn, m, hm, hne, heq⟩ := Finset.exists_ne_map_eq_of_card_lt_of_maps_to hcard hmaps
  have hu : u n = u m :=
    (List.prefix_of_prefix_length_le (hstart n hn) (hstart m hm) heq.le).eq_of_length heq
  exact hne (eq_of_numberedName_isSuffix (hname n hn) (hu ▸ hname m hm))

theorem freeMarkerName_of_not_isInfix {page : Text} (h : ¬markerName <:+: page) :
    freeMarkerName page = markerName := by
  rw [freeMarkerName, if_neg (by rwa [holds_iff_isInfix])]

/-- Where the page holds the plain name, the name is the first numbered one that it does not hold. -/
theorem exists_freeMarkerName_eq {page : Text} (h : markerName <:+: page) :
    ∃ n, freeMarkerName page = numberedName n ∧
      IsLeast {n | 1 ≤ n ∧ ¬numberedName n <:+: page} n := by
  obtain ⟨k, hk, hfree⟩ := exists_numberedName_free page 1
  rw [freeMarkerName, if_pos (holds_iff_isInfix.mpr h)]
  cases hfind : (List.range' 1 (page.length + 1)).find? fun n => !holds (numberedName n) page with
  | none =>
    have := List.find?_eq_none.mp hfind k hk
    simp only [Bool.not_eq_true, Bool.not_eq_false', holds_iff_isInfix] at this
    exact absurd this hfree
  | some n =>
    obtain ⟨hn, hmem, hfirst⟩ := List.find?_range'_eq_some.mp hfind
    simp only [Bool.not_not, holds_iff_isInfix] at hfirst
    rw [Bool.not_eq_true', ← Bool.not_eq_true, holds_iff_isInfix] at hn
    refine ⟨n, rfl, ⟨(List.mem_range'_1.mp hmem).1, hn⟩, fun m hm => ?_⟩
    exact not_lt.mp fun hlt => hm.2 (hfirst m hm.1 hlt)

/-- The name of the markers does not occur in the page. -/
theorem not_isInfix_free (page : Text) : ¬freeMarkerName page <:+: page := by
  by_cases h : markerName <:+: page
  · obtain ⟨n, hn, hleast⟩ := exists_freeMarkerName_eq h
    rw [hn]
    exact hleast.1.2
  · rwa [freeMarkerName_of_not_isInfix h]

theorem isBlank_of_isAlphanum {c : Char} (h : c.isAlphanum = true) : isBlank c = false := by
  have hranges : (decide (c.val ≥ 'A'.val ∧ c.val ≤ 'Z'.val) ||
      (decide (c.val ≥ 'a'.val) && decide (c.val ≤ 'z'.val)) ||
        (decide (c.val ≥ '0'.val) && decide (c.val ≤ '9'.val))) = true := h
  simp only [Bool.or_eq_true, Bool.and_eq_true, decide_eq_true_eq, UInt32.le_iff_toNat_le,
    ge_iff_le] at hranges
  have hn : 48 ≤ c.toNat ∧ c.toNat ≤ 122 := by
    rw [← Char.toNat_val]
    have h1 : 'A'.val.toNat = 65 := rfl
    have h2 : 'z'.val.toNat = 122 := rfl
    have h3 : '0'.val.toNat = 48 := rfl
    have h4 : 'a'.val.toNat = 97 := rfl
    have h5 : 'Z'.val.toNat = 90 := rfl
    have h6 : '9'.val.toNat = 57 := rfl
    omega
  simp only [isBlank, Bool.or_eq_false_iff, Bool.and_eq_false_imp, decide_eq_true_eq,
    decide_eq_false_iff_not, beq_eq_false_iff_ne]
  omega

namespace IsName

variable {tag : Text}

theorem ne_nil (h : IsName tag) : tag ≠ [] := by
  rintro rfl
  exact absurd h.head (by simp)

/-- A character other than letters, digits and hyphens is not part of the name. -/
theorem not_mem (h : IsName tag) {c : Char} (hc : c.isAlphanum = false) (hd : c ≠ '-') : c ∉ tag :=
  fun hm => (h.plain c hm).elim (fun ha => by simp [ha] at hc) hd

theorem solid (h : IsName tag) : Solid tag := by
  intro c hc
  rcases h.plain c hc with hc | rfl
  · exact isBlank_of_isAlphanum hc
  · decide

end IsName

/-! ### Spellings -/

/-- The character that a marker starts with. -/
def opening (inTag : Bool) : Char := if inTag then '_' else '<'

/-- The start of a marker without its blanks, as far as its number can be told. -/
def sign (tag : Text) (index : Nat) (inTag : Bool) : Text :=
  if inTag then word tag index
  else '<' :: tag ++ (numberKey ++ '=' :: '"' :: (ofNat index ++ ['"']))

/-- The end of a marker without its blanks. -/
def close (tag : Text) (inTag : Bool) : Text :=
  if inTag then [] else '>' :: '<' :: '/' :: (tag ++ ['>'])

/-- The start of a marker element with blanks in it, and what follows. -/
def stretched (tag : Text) (index : Nat) (v w x y rest : Text) : Text :=
  '<' :: tag ++ (v ++ (numberKey ++ (w ++ (['='] ++ (x ++ ('"' :: ofNat index ++ ['"'] ++
    (y ++ rest)))))))

/-- A marker element with blanks in it: closed in itself or by an end tag. -/
inductive Spelling (tag : Text) (index : Nat) : Text → Prop
  | closed {v w x y : Text} : v ≠ [] → Blank v → Blank w → Blank x → Blank y →
      Spelling tag index (stretched tag index v w x y ['/', '>'])
  | paired {v w x y z u : Text} : v ≠ [] → Blank v → Blank w → Blank x → Blank y → Blank z →
      Blank u → Spelling tag index
        (stretched tag index v w x y (['>'] ++ (z ++ ('<' :: '/' :: tag ++ (u ++ ['>'])))))

/-- Skipping blanks before a text that starts with none. -/
theorem after?_trimLeft_iff {c : Char} {p s r : Text} (hc : isBlank c = false) :
    Text.after? (c :: p) s.trimLeft = some r ↔ ∃ w, Blank w ∧ s = w ++ (c :: p ++ r) := by
  rw [after?_eq_some_iff]
  constructor
  · intro h
    obtain ⟨w, hw, hs⟩ := exists_blank_trimLeft s
    exact ⟨w, hw, h ▸ hs⟩
  · rintro ⟨w, hw, rfl⟩
    rw [trimLeft_blank_append hw, List.cons_append, trimLeft_of_solid_head hc]

/-- What follows the name and the number of a marker element. -/
def afterNumber? (tag : Text) (index : Nat) (s : Text) : Option Text := do
  let s ← Text.after? ('<' :: tag) s
  if s.head?.any isBlank then
    let s ← Text.after? numberKey s.trimLeft
    let s ← Text.after? ['='] s.trimLeft
    Text.after? ('"' :: ofNat index ++ ['"']) s.trimLeft
  else none

/-- What follows the end of a marker element. -/
def afterClose? (tag s : Text) : Option Text :=
  Text.after? ['/', '>'] s.trimLeft <|> do
    let s ← Text.after? ['>'] s.trimLeft
    let s ← Text.after? ('<' :: '/' :: tag) s.trimLeft
    Text.after? ['>'] s.trimLeft

theorem afterElement?_eq (tag : Text) (index : Nat) (s : Text) :
    afterElement? tag index s = (afterNumber? tag index s).bind (afterClose? tag) := by
  simp only [afterElement?, afterNumber?, Option.bind_eq_bind, Option.bind_assoc]
  refine congrArg (Option.bind _) (funext fun s => ?_)
  split
  · simp only [Option.bind_assoc]
    rfl
  · rfl

theorem numberKey_eq : numberKey = ['d', 'a', 't', 'a', '-', 'i'] := rfl

theorem afterNumber?_eq_some_iff {tag s r : Text} {index : Nat} : afterNumber? tag index s = some r ↔
    ∃ v w x, v ≠ [] ∧ Blank v ∧ Blank w ∧ Blank x ∧ s = stretched tag index v w x [] r := by
  simp only [afterNumber?, Option.bind_eq_bind, Option.bind_eq_some_iff, stretched, numberKey_eq]
  constructor
  · rintro ⟨s₁, hs, h⟩
    split at h
    · next hb =>
      simp only [Option.bind_eq_some_iff] at h
      obtain ⟨s₂, h₁, s₃, h₂, h₃⟩ := h
      obtain ⟨v, hv, rfl⟩ := (after?_trimLeft_iff (by decide)).mp h₁
      obtain ⟨w, hw, rfl⟩ := (after?_trimLeft_iff (by decide)).mp h₂
      obtain ⟨x, hx, rfl⟩ := (after?_trimLeft_iff (by decide)).mp h₃
      refine ⟨v, w, x, ?_, hv, hw, hx, eq_append_of_after? hs⟩
      rintro rfl
      exact absurd hb (by simp [isBlank])
    · exact absurd h (by simp)
  · rintro ⟨v, w, x, hne, hv, hw, hx, rfl⟩
    refine ⟨_, after?_append _ _, ?_⟩
    have hb : ∀ t : Text, (List.head? (v ++ t)).any isBlank = true := by
      intro t
      cases v with
      | nil => exact absurd rfl hne
      | cons d v => simpa using hv d List.mem_cons_self
    rw [if_pos (hb _)]
    simp only [Option.bind_eq_some_iff]
    exact ⟨_, (after?_trimLeft_iff (by decide)).mpr ⟨v, hv, rfl⟩, _,
      (after?_trimLeft_iff (by decide)).mpr ⟨w, hw, rfl⟩,
      (after?_trimLeft_iff (by decide)).mpr ⟨x, hx, rfl⟩⟩

theorem afterClose?_eq_some_iff {tag s r : Text} : afterClose? tag s = some r ↔
    (∃ y, Blank y ∧ s = y ++ (['/', '>'] ++ r)) ∨
      ∃ y z u, Blank y ∧ Blank z ∧ Blank u ∧
        s = y ++ (['>'] ++ (z ++ ('<' :: '/' :: tag ++ (u ++ (['>'] ++ r))))) := by
  rw [afterClose?, Option.orElse_eq_orElse, Option.orElse_eq_or, Option.or_eq_some_iff,
    after?_trimLeft_iff (by decide)]
  refine or_congr Iff.rfl ?_
  simp only [Option.bind_eq_bind, Option.bind_eq_some_iff]
  constructor
  · rintro ⟨_, s₁, h₁, s₂, h₂, h₃⟩
    obtain ⟨y, hy, rfl⟩ := (after?_trimLeft_iff (by decide)).mp h₁
    obtain ⟨z, hz, rfl⟩ := (after?_trimLeft_iff (by decide)).mp h₂
    obtain ⟨u, hu, rfl⟩ := (after?_trimLeft_iff (by decide)).mp h₃
    exact ⟨y, z, u, hy, hz, hu, rfl⟩
  · rintro ⟨y, z, u, hy, hz, hu, rfl⟩
    refine ⟨?_, _, (after?_trimLeft_iff (by decide)).mpr ⟨y, hy, rfl⟩, _,
      (after?_trimLeft_iff (by decide)).mpr ⟨z, hz, rfl⟩,
      (after?_trimLeft_iff (by decide)).mpr ⟨u, hu, rfl⟩⟩
    rw [trimLeft_blank_append hy]
    rfl

/-- A marker element is found in every spelling and in no other. -/
theorem afterElement?_eq_some_iff {tag s r : Text} {index : Nat} :
    afterElement? tag index s = some r ↔ ∃ t, Spelling tag index t ∧ s = t ++ r := by
  rw [afterElement?_eq, Option.bind_eq_some_iff]
  constructor
  · rintro ⟨s₁, h₁, h₂⟩
    obtain ⟨v, w, x, hne, hv, hw, hx, rfl⟩ := afterNumber?_eq_some_iff.mp h₁
    rcases afterClose?_eq_some_iff.mp h₂ with ⟨y, hy, rfl⟩ | ⟨y, z, u, hy, hz, hu, rfl⟩
    · exact ⟨_, .closed hne hv hw hx hy, by simp [stretched]⟩
    · exact ⟨_, .paired hne hv hw hx hy hz hu, by simp [stretched]⟩
  · rintro ⟨t, ht, rfl⟩
    cases ht with
    | @closed v w x y hne hv hw hx hy =>
      refine ⟨y ++ (['/', '>'] ++ r), ?_, afterClose?_eq_some_iff.mpr (Or.inl ⟨y, hy, rfl⟩)⟩
      exact afterNumber?_eq_some_iff.mpr ⟨v, w, x, hne, hv, hw, hx, by simp [stretched]⟩
    | @paired v w x y z u hne hv hw hx hy hz hu =>
      refine ⟨y ++ (['>'] ++ (z ++ ('<' :: '/' :: tag ++ (u ++ (['>'] ++ r))))), ?_,
        afterClose?_eq_some_iff.mpr (Or.inr ⟨y, z, u, hy, hz, hu, rfl⟩)⟩
      exact afterNumber?_eq_some_iff.mpr ⟨v, w, x, hne, hv, hw, hx, by simp [stretched]⟩

/-- A text that is found as the marker with the given number, whatever follows it. -/
def Spells (tag : Text) (index : Nat) (inTag : Bool) (t : Text) : Prop :=
  if inTag then t = word tag index else Spelling tag index t

theorem after?_eq_some_iff {tag s r : Text} {index : Nat} {inTag : Bool} :
    after? tag index inTag s = some r ↔ ∃ t, Spells tag index inTag t ∧ s = t ++ r := by
  cases inTag with
  | false => exact afterElement?_eq_some_iff
  | true => simp [after?, Spells, Text.after?_eq_some_iff]

theorem spells_render (tag : Text) (index : Nat) (inTag : Bool) :
    Spells tag index inTag (render tag index inTag) := by
  cases inTag with
  | false =>
    have hone : Blank [' '] := Blank.cons (by decide) blank_nil
    have : Spelling tag index _ :=
      .paired (by simp) hone blank_nil blank_nil blank_nil blank_nil blank_nil
    simpa [Spells, render, element, stretched] using this
  | true => rfl

variable {tag : Text} {index : Nat} {inTag : Bool}

theorem Spells.starts {t : Text} (h : Spells tag index inTag t) : opening inTag :: tag <+: t := by
  cases inTag with
  | false => cases (show Spelling tag index t from h) <;> exact List.prefix_append _ _
  | true =>
    obtain rfl : t = word tag index := h
    exact ⟨'_' :: (ofNat index ++ ['_']), by simp [word, opening]⟩

theorem solid_ofNat (n : Nat) : Solid (ofNat n) := fun c hc =>
  isBlank_of_isAlphanum (by simp [Char.isAlphanum, isDigit_ofNat n c hc])

theorem solid_stretched (hname : IsName tag) {v w x y : Text} (hv : Blank v) (hw : Blank w)
    (hx : Blank x) (hy : Blank y) (rest : Text) :
    (stretched tag index v w x y rest).solid = sign tag index false ++ rest.solid := by
  have hkey : numberKey.solid = numberKey := by decide
  simp (disch := decide) [stretched, sign, solid_append, solid_cons, hv.solid_eq, hw.solid_eq, hx.solid_eq,
    hy.solid_eq, hname.solid.solid_eq, (solid_ofNat index).solid_eq, hkey]

/-- Without its blanks a marker is its sign and its end. -/
theorem Spells.solid {t : Text} (h : Spells tag index inTag t) (hname : IsName tag) :
    t.solid = sign tag index inTag ++ close tag inTag ∨
      inTag = false ∧ t.solid = sign tag index inTag ++ ['/', '>'] := by
  cases inTag with
  | true =>
    obtain rfl : t = word tag index := h
    refine Or.inl ?_
    simp (disch := decide) [sign, close, word, solid_append, solid_cons, hname.solid.solid_eq,
      (solid_ofNat index).solid_eq]
  | false =>
    cases (show Spelling tag index t from h) with
    | closed hne hv hw hx hy => exact Or.inr ⟨rfl, solid_stretched hname hv hw hx hy _⟩
    | paired hne hv hw hx hy hz hu =>
      refine Or.inl ?_
      rw [solid_stretched hname hv hw hx hy]
      simp (disch := decide) [close, solid_append, solid_cons, hname.solid.solid_eq, hz.solid_eq, hu.solid_eq]

/-- Two markers at one place without their blanks are told apart by their signs. -/
theorem eq_of_sign {index' : Nat} {inTag' : Bool} {s : Text}
    (h : sign tag index inTag <+: sign tag index' inTag' ++ s) : index = index' ∧ inTag = inTag' := by
  obtain ⟨r, hr⟩ := h
  cases inTag <;> cases inTag' <;>
    simp only [sign, word, Bool.false_eq_true, if_true, if_false, List.cons_append, List.append_assoc,
      List.nil_append, List.cons.injEq, List.append_cancel_left_eq, true_and] at hr
  · exact ⟨eq_of_ofNat_append (by decide) hr, rfl⟩
  · exact absurd hr.1 (by decide)
  · exact absurd hr.1 (by decide)
  · exact ⟨eq_of_ofNat_append (by decide) hr, rfl⟩

/-! ### Finding markers -/

theorem find?_of_after? {s r : Text} (h : after? tag index inTag s = some r) :
    find? tag index inTag s = some ([], r) := by
  cases s with
  | nil => simp [find?, h]
  | cons c s => simp [find?, h]

theorem find?_append (hname : IsName tag) {p t r : Text} (ht : Spells tag index inTag t)
    (hp : ¬tag <:+: p) : find? tag index inTag (p ++ (t ++ r)) = some (p, r) := by
  have hfound : after? tag index inTag (t ++ r) = some r := after?_eq_some_iff.mpr ⟨t, ht, rfl⟩
  obtain ⟨t', ht'⟩ := ht.starts
  have hopen : opening inTag ∉ tag := by
    cases inTag <;> exact hname.not_mem (by decide) (by decide)
  induction p with
  | nil => exact find?_of_after? hfound
  | cons c p ih =>
    have hp' : ¬tag <:+: p := fun h => hp (List.infix_cons h)
    have hnone : after? tag index inTag (c :: (p ++ (t ++ r))) = none := by
      rw [Option.eq_none_iff_forall_not_mem]
      intro r' hr'
      obtain ⟨u, hu, he⟩ := after?_eq_some_iff.mp hr'
      obtain ⟨u', rfl⟩ := hu.starts
      rw [List.append_assoc, List.cons_append, List.cons.injEq] at he
      refine hp' (prefix_of_prefix_append hopen (t := tag ++ t' ++ r) ?_).isInfix
      refine ⟨u' ++ r', ?_⟩
      rw [← he.2, ← ht']
      simp
    rw [List.cons_append, find?, hnone]
    simp [ih hp']

theorem exists_of_find? {s : Text} (h : (find? tag index inTag s).isSome = true) :
    ∃ p t r, s = p ++ (t ++ r) ∧ Spells tag index inTag t := by
  induction s with
  | nil =>
    simp only [find?, Option.isSome_map, Option.isSome_iff_exists] at h
    obtain ⟨r, hr⟩ := h
    obtain ⟨t, ht, he⟩ := after?_eq_some_iff.mp hr
    exact ⟨[], t, r, he, ht⟩
  | cons c s ih =>
    rw [find?] at h
    split at h
    · next r hr =>
      obtain ⟨t, ht, he⟩ := after?_eq_some_iff.mp hr
      exact ⟨[], t, r, he, ht⟩
    · rw [Option.isSome_map] at h
      obtain ⟨p, t, r, rfl, ht⟩ := ih h
      exact ⟨c :: p, t, r, rfl, ht⟩

end Marker

end JspLayout
