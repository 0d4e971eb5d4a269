import Mathlib.Data.List.Infix
import JspLayout.Proofs.Reflow
import JspLayout.Proofs.Words

/-! Directives in canonical form.

    A directive in canonical form is its name and its attributes in order, one space apart. Main
    statements: what is written so reads back as it was written, and a directive in canonical form stays
    as it is, also where the blanks around its line feeds have been changed. -/

namespace JspLayout

open Text

/-! ### The order of attributes -/

namespace Text

protected theorem le_total : ∀ s t : Text, (le s t || le t s) = true
  | [], _ => rfl
  | _ :: _, [] => rfl
  | a :: s, b :: t => by
    have ih := Text.le_total s t
    rcases Nat.lt_trichotomy a.toNat b.toNat with h | h | h
    · simp [le, h]
    · obtain rfl : a = b := Char.toNat_inj.mp h
      simpa [le] using ih
    · simp [le, h]

protected theorem le_trans : ∀ {s t u : Text}, le s t = true → le t u = true → le s u = true
  | [], _, _, _, _ => rfl
  | _ :: _, [], _, h, _ => by simp [le] at h
  | _ :: _, _ :: _, [], _, h => by simp [le] at h
  | a :: s, b :: t, c :: u, hst, htu => by
    simp only [le, Bool.or_eq_true, Bool.and_eq_true, decide_eq_true_eq, beq_iff_eq] at hst htu ⊢
    rcases hst with hab | ⟨rfl, hst⟩
    · rcases htu with hbc | ⟨rfl, -⟩
      · exact Or.inl (hab.trans hbc)
      · exact Or.inl hab
    · rcases htu with hac | ⟨rfl, htu⟩
      · exact Or.inl hac
      · exact Or.inr ⟨rfl, Text.le_trans hst htu⟩

protected theorem le_antisymm : ∀ {s t : Text}, le s t = true → le t s = true → s = t
  | [], [], _, _ => rfl
  | [], _ :: _, _, h => by simp [le] at h
  | _ :: _, [], h, _ => by simp [le] at h
  | a :: s, b :: t, hst, hts => by
    simp only [le, Bool.or_eq_true, Bool.and_eq_true, decide_eq_true_eq, beq_iff_eq] at hst hts
    rcases hst with hab | ⟨rfl, hst⟩
    · rcases hts with hba | ⟨rfl, -⟩
      · omega
      · omega
    · rcases hts with haa | ⟨-, hts⟩
      · omega
      · rw [Text.le_antisymm hst hts]

end Text

namespace Directive

theorem Attribute.le_total (a b : Attribute) : (a.le b || b.le a) = true := by
  unfold Attribute.le
  by_cases h : a.key.caseFold = b.key.caseFold
  · simp only [h, if_true]
    exact Text.le_total a.key b.key
  · simp only [h, Ne.symm h, if_false]
    exact Text.le_total a.key.caseFold b.key.caseFold

theorem Attribute.le_trans {a b c : Attribute} (hab : a.le b = true) (hbc : b.le c = true) :
    a.le c = true := by
  unfold Attribute.le at hab hbc ⊢
  dsimp only at hab hbc ⊢
  generalize a.key.caseFold = s at hab ⊢
  generalize b.key.caseFold = t at hab hbc
  generalize c.key.caseFold = u at hbc ⊢
  by_cases hst : s = t
  · subst hst
    rw [if_pos rfl] at hab
    by_cases hsu : s = u
    · rw [if_pos hsu] at hbc ⊢
      exact Text.le_trans hab hbc
    · rw [if_neg hsu] at hbc ⊢
      exact hbc
  · rw [if_neg hst] at hab
    by_cases htu : t = u
    · subst htu
      rwa [if_neg hst]
    · rw [if_neg htu] at hbc
      have hsu : s ≠ u := by
        rintro rfl
        exact hst (Text.le_antisymm hab hbc)
      rw [if_neg hsu]
      exact Text.le_trans hab hbc

/-! ### Reading attributes -/

/-- A name: word characters, at least one. -/
structure IsName (s : Text) : Prop where
  ne_nil : s ≠ []
  word : ∀ c ∈ s, isWord c = true

/-- A run of characters of one sort ends where the first of another sort stands. -/
theorem span_append {p : Char → Bool} {s r : Text} (hs : ∀ c ∈ s, p c = true)
    (hr : ∀ c ∈ r.head?, p c = false) : (s ++ r).takeWhile p = s ∧ (s ++ r).dropWhile p = r := by
  rw [List.takeWhile_append_of_pos hs, List.dropWhile_append_of_pos hs]
  cases r with
  | nil => simp
  | cons c r =>
    have hc : ¬p c = true := by simp [hr c rfl]
    rw [List.takeWhile_cons_of_neg hc, List.dropWhile_cons_of_neg hc]
    simp

theorem IsName.span {s r : Text} (hs : IsName s) (hr : ∀ c ∈ r.head?, isWord c = false) :
    (s ++ r).takeWhile isWord = s ∧ (s ++ r).dropWhile isWord = r := span_append hs.word hr

theorem IsName.solid {s : Text} (h : IsName s) : Solid s := fun c hc => Java.solid_of_isWord (h.word c hc)

theorem isName_takeWhile {s : Text} (h : s.takeWhile isWord ≠ []) : IsName (s.takeWhile isWord) :=
  ⟨h, fun _ hc => List.mem_takeWhile_imp hc⟩

/-- A text is cut around the first of a character. -/
theorem cut?_singleton_iff {q : Char} {s l r : Text} :
    Text.cut? [q] s = some (l, r) ↔ s = l ++ q :: r ∧ q ∉ l := by
  rw [cut?_eq_some_iff (by simp), List.dropLast_singleton, List.append_nil, List.singleton_infix_iff,
    List.singleton_append]

/-- Text between two quotes of a kind that it does not hold is a value. -/
theorem value?_quoted {q : Char} (hq : q = '"' ∨ q = '\'') {v : Text} (hv : q ∉ v) (rest : Text) :
    value? (q :: (v ++ q :: rest)) = some (v, rest) := by
  have hcut : Text.cut? [q] (v ++ q :: rest) = some (v, rest) := cut?_singleton_iff.mpr ⟨rfl, hv⟩
  rcases hq with rfl | rfl
  · exact hcut
  · exact hcut

theorem value?_bare {s : Text} (h : s.takeWhile isBare ≠ []) :
    value? s = some (s.takeWhile isBare, s.dropWhile isBare) := by
  unfold value?
  split
  · exact absurd rfl h
  · exact absurd rfl h
  · rw [if_neg h]

/-- A value stands between quotes of a kind that it does not hold, or needs none. -/
theorem value?_cases {s v rest : Text} (h : value? s = some (v, rest)) :
    (∃ q, (q = '"' ∨ q = '\'') ∧ q ∉ v ∧ s = q :: (v ++ q :: rest)) ∨
      v ≠ [] ∧ v = s.takeWhile isBare ∧ rest = s.dropWhile isBare := by
  have hcut : ∀ {q : Char} {r : Text}, Text.cut? [q] r = some (v, rest) →
      q ∉ v ∧ q :: r = q :: (v ++ q :: rest) := by
    intro q r h
    obtain ⟨rfl, hv⟩ := cut?_singleton_iff.mp h
    exact ⟨hv, rfl⟩
  unfold value? at h
  split at h
  · obtain ⟨hv, hs⟩ := hcut h
    exact Or.inl ⟨'"', Or.inl rfl, hv, hs⟩
  · obtain ⟨hv, hs⟩ := hcut h
    exact Or.inl ⟨'\'', Or.inr rfl, hv, hs⟩
  · split at h
    · exact absurd h (by simp)
    · next hne =>
      obtain ⟨rfl, rfl⟩ : s.takeWhile isBare = v ∧ s.dropWhile isBare = rest := by simpa using h
      exact Or.inr ⟨hne, rfl, rfl⟩

theorem attribute?_eq_some_iff {s rest : Text} {a : Attribute} : attribute? s = some (a, rest) ↔
    (a.key ≠ [] ∧ s.takeWhile isWord = a.key) ∧
      ∃ r, Text.trimLeft (s.dropWhile isWord) = '=' :: r ∧
        value? (Text.trimLeft r) = some (a.value, rest) := by
  constructor
  · intro h
    unfold attribute? at h
    split at h
    · exact absurd h (by simp)
    · next k key r hkey hr =>
      obtain ⟨⟨v, rest'⟩, hv, he⟩ := Option.map_eq_some_iff.mp h
      obtain ⟨rfl, rfl⟩ := Prod.mk.inj he
      exact ⟨⟨by simp, hkey⟩, r, hr, hv⟩
    · exact absurd h (by simp)
  · rintro ⟨⟨hne, hkey⟩, r, hr, hv⟩
    obtain ⟨key, v⟩ := a
    obtain ⟨k, ks, rfl⟩ := List.exists_cons_of_ne_nil hne
    simp only at hkey hv
    simp [attribute?, hkey, hr, hv]

theorem attribute?_of_not_word {c : Char} (hc : isWord c = false) (r : Text) :
    attribute? (c :: r) = none := by
  rw [Option.eq_none_iff_forall_not_mem]
  rintro ⟨a, rest⟩ h
  obtain ⟨⟨hne, hkey⟩, -⟩ := attribute?_eq_some_iff.mp h
  rw [List.takeWhile_cons_of_neg (by simp [hc])] at hkey
  exact hne hkey.symm

theorem items_of_attribute? {s rest : Text} {a : Attribute} (h : attribute? s = some (a, rest)) :
    items s = .attribute a :: items rest := by
  cases s with
  | nil => simp [attribute?] at h
  | cons c r =>
    rw [items]
    split
    · next h' =>
      rw [h] at h'
      obtain ⟨rfl, rfl⟩ := Prod.mk.inj (Option.some.inj h')
      rfl
    · next h' => rw [h] at h'; exact absurd h' (by simp)

theorem items_of_none {c : Char} {r : Text} (h : attribute? (c :: r) = none) :
    items (c :: r) = .other c :: items r := by
  rw [items]
  split
  · next h' => rw [h] at h'; exact absurd h' (by simp)
  · rfl

theorem items_blank_cons {c : Char} (hc : isBlank c = true) (r : Text) :
    items (c :: r) = .other c :: items r :=
  items_of_none (attribute?_of_not_word (Java.isWord_of_isBlank hc) r)

/-- Blanks before a body hold no attribute and leave nothing over but blanks. -/
theorem items_trimLeft (s : Text) : attributesOf (items s) = attributesOf (items s.trimLeft) ∧
    (residueOf (items s)).blank = (residueOf (items s.trimLeft)).blank := by
  induction s with
  | nil => exact ⟨rfl, rfl⟩
  | cons c s ih =>
    by_cases hc : isBlank c = true
    · rw [items_blank_cons hc, Text.trimLeft, List.dropWhile_cons_of_pos hc]
      refine ⟨ih.1, ?_⟩
      have hresidue : residueOf (.other c :: items s) = c :: residueOf (items s) := rfl
      rw [hresidue, blank, List.all_cons, hc, Bool.true_and]
      exact ih.2
    · rw [Text.trimLeft, List.dropWhile_cons_of_neg hc]
      exact ⟨rfl, rfl⟩

/-! ### Reading past blanks -/

section

variable {s t : Text} (h : Reflowed s t)

include h

theorem exists_value?_of_reflowed {v rest : Text} (hv : value? s = some (v, rest)) :
    ∃ v' rest', value? t = some (v', rest') ∧ Reflowed rest rest' := by
  rcases value?_cases hv with ⟨q, hq, hqv, rfl⟩ | ⟨hne, rfl, rfl⟩
  · have hsolid : isBlank q = false := by rcases hq with rfl | rfl <;> decide
    obtain ⟨r, rfl, hr⟩ := h.split_cons hsolid
    obtain ⟨v', rest', rfl, hvv, hrest⟩ := hr.split hsolid
    exact ⟨v', rest', value?_quoted hq (fun hmem => hqv ((hvv.mem_iff hsolid).mpr hmem)) rest', hrest⟩
  · have hbare : ∀ c, isBlank c = true → isBare c = false := fun c hc => by simp [isBare, hc]
    obtain ⟨htake, hdrop⟩ := h.takeWhile hbare
    exact ⟨_, _, value?_bare (htake ▸ hne), hdrop⟩

theorem exists_attribute?_of_reflowed {a : Attribute} {rest : Text}
    (ha : attribute? s = some (a, rest)) :
    ∃ a' rest', attribute? t = some (a', rest') ∧ Reflowed rest rest' := by
  obtain ⟨⟨hne, hkey⟩, r, hr, hv⟩ := attribute?_eq_some_iff.mp ha
  obtain ⟨htake, hdrop⟩ := h.takeWhile fun _ => Java.isWord_of_isBlank
  have hsign := hdrop.trimLeft
  rw [hr] at hsign
  obtain ⟨r', hr', hrr⟩ := hsign.split_cons (by decide)
  obtain ⟨v', rest', hv', hrest⟩ := exists_value?_of_reflowed hrr.trimLeft hv
  exact ⟨⟨a.key, v'⟩, rest', attribute?_eq_some_iff.mpr ⟨⟨hne, htake.trans hkey⟩, r', hr', hv'⟩, hrest⟩

theorem attribute?_eq_none_of_reflowed (ha : attribute? s = none) : attribute? t = none := by
  rw [Option.eq_none_iff_forall_not_mem]
  rintro ⟨a, rest⟩ ht
  obtain ⟨a', rest', hs, -⟩ := exists_attribute?_of_reflowed h.symm ht
  rw [ha] at hs
  exact absurd hs (by simp)

end

/-- Whether a body holds anything but attributes does not depend on which blanks it holds. -/
theorem blank_residueOf_of_reflowed (s : Text) : ∀ {t : Text}, Reflowed s.trimLeft t.trimLeft →
    (residueOf (items t)).blank = (residueOf (items s)).blank := by
  fun_induction items s with
  | case1 =>
    intro t h
    have hnil : t.trimLeft = [] := h.eq_of_no_feed List.not_mem_nil
    rw [(items_trimLeft t).2, hnil, items]
  | case2 c r a rest hattr ih =>
    intro t h
    obtain ⟨⟨hne, hkey⟩, -⟩ := attribute?_eq_some_iff.mp hattr
    have hword : isWord c = true := by
      by_contra hc
      rw [List.takeWhile_cons_of_neg hc] at hkey
      exact hne hkey.symm
    rw [Text.trimLeft, List.dropWhile_cons_of_neg (by simp [Java.solid_of_isWord hword])] at h
    obtain ⟨a', rest', hattr', hrest⟩ := exists_attribute?_of_reflowed h hattr
    rw [(items_trimLeft t).2, items_of_attribute? hattr']
    exact ih hrest.trimLeft
  | case3 c r hattr ih =>
    intro t h
    have hresidue : ∀ is, residueOf (.other c :: is) = c :: residueOf is := fun _ => rfl
    by_cases hc : isBlank c = true
    · rw [Text.trimLeft, List.dropWhile_cons_of_pos hc] at h
      rw [hresidue, blank, blank, List.all_cons, hc, Bool.true_and]
      exact ih h
    · rw [Text.trimLeft, List.dropWhile_cons_of_neg hc] at h
      obtain ⟨r', hr', -⟩ := h.split_cons (Bool.eq_false_iff.mpr hc)
      have hnone := attribute?_eq_none_of_reflowed h hattr
      rw [hr'] at hnone
      rw [(items_trimLeft t).2, hr', items_of_none hnone, hresidue, hresidue]
      simp [blank, hc]

theorem parse?_eq_none_iff {s : Text} : parse? s = none ↔ s.takeWhile isWord = [] ∨
    (residueOf (items (Text.trimLeft (s.dropWhile isWord)))).blank = false := by
  unfold parse?
  dsimp only
  split
  · next h => exact iff_of_true rfl h
  · next h => exact iff_of_false (by simp) h

theorem parse?_eq_some_iff {s name : Text} {as : List Attribute} : parse? s = some (name, as) ↔
    (name ≠ [] ∧ s.takeWhile isWord = name) ∧
      (residueOf (items (Text.trimLeft (s.dropWhile isWord)))).blank = true ∧
        attributesOf (items (Text.trimLeft (s.dropWhile isWord))) = as := by
  constructor
  · intro h
    have hnone : parse? s ≠ none := by simp [h]
    rw [ne_eq, parse?_eq_none_iff, not_or, Bool.not_eq_false] at hnone
    unfold parse? at h
    dsimp only at h
    rw [if_neg (by simpa using hnone)] at h
    obtain ⟨rfl, rfl⟩ := Prod.mk.inj (Option.some.inj h)
    exact ⟨⟨hnone.1, rfl⟩, hnone.2, rfl⟩
  · rintro ⟨⟨hne, rfl⟩, hblank, rfl⟩
    unfold parse?
    dsimp only
    rw [if_neg (by simp [hne, hblank])]

/-- What is no directive does not become one where blanks around line feeds are changed. -/
theorem parse?_eq_none_of_reflowed {s t : Text} (h : Reflowed s t) (hs : parse? s = none) :
    parse? t = none := by
  obtain ⟨htake, hdrop⟩ := h.takeWhile fun _ => Java.isWord_of_isBlank
  have hresidue := blank_residueOf_of_reflowed _ hdrop.trimLeft.trimLeft
  rw [parse?_eq_none_iff] at hs ⊢
  rw [htake, hresidue]
  exact hs

/-! ### Written directives -/

/-- The quote that the value of an attribute is written between. -/
def Attribute.quote (a : Attribute) : Char := if a.value.contains '"' then '\'' else '"'

theorem Attribute.quote_cases (a : Attribute) : a.quote = '"' ∨ a.quote = '\'' := by
  unfold quote
  split
  · exact Or.inr rfl
  · exact Or.inl rfl

theorem Attribute.render_eq (a : Attribute) :
    a.render = a.key ++ '=' :: a.quote :: (a.value ++ [a.quote]) := by
  unfold render quote
  split <;> simp

/-- An attribute that can be written: its key is a name, and its value does not hold both kinds of
    quotes. -/
structure Attribute.Writable (a : Attribute) : Prop where
  key : IsName a.key
  value : a.quote ∉ a.value

theorem Attribute.quote_not_mem {a : Attribute} (h : '"' ∉ a.value ∨ '\'' ∉ a.value) :
    a.quote ∉ a.value := by
  unfold quote
  by_cases hmem : '"' ∈ a.value
  · rw [if_pos (by simpa using hmem)]
    exact h.resolve_left fun hnot => hnot hmem
  · rwa [if_neg (by simpa using hmem)]

theorem writable_of_attribute? {s rest : Text} {a : Attribute} (h : attribute? s = some (a, rest)) :
    a.Writable := by
  obtain ⟨⟨hne, hkey⟩, r, -, hv⟩ := attribute?_eq_some_iff.mp h
  refine ⟨hkey ▸ isName_takeWhile (hkey ▸ hne), Attribute.quote_not_mem ?_⟩
  rcases value?_cases hv with ⟨q, rfl | rfl, hq, -⟩ | ⟨-, hv, -⟩
  · exact Or.inl hq
  · exact Or.inr hq
  · left
    intro hmem
    rw [hv] at hmem
    exact absurd (List.mem_takeWhile_imp hmem) (by decide)

theorem writable_of_mem_attributesOf {a : Attribute} (s : Text) (h : a ∈ attributesOf (items s)) :
    a.Writable := by
  fun_induction items s with
  | case1 => simp [attributesOf] at h
  | case2 c r a' rest hattr ih =>
    have h : a ∈ a' :: attributesOf (items rest) := h
    rcases List.mem_cons.mp h with rfl | hmem
    · exact writable_of_attribute? hattr
    · exact ih hmem
  | case3 c r hattr ih => exact ih h

/-- A directive as it is written: the name and the attributes, one space apart. -/
def written (name : Text) (as : List Attribute) : Text := name ++ as.flatMap fun a => ' ' :: a.render

theorem join_eq_written (name : Text) (as : List Attribute) :
    Text.join [' '] (name :: as.map Attribute.render) = written name as := by
  induction as generalizing name with
  | nil => simp [Text.join, written]
  | cons a as ih =>
    have ih := ih a.render
    simp only [Text.join, written] at ih ⊢
    rw [List.map_cons, List.flatMap_cons, List.intercalate_cons_cons, ih]
    simp

theorem attribute?_render {a : Attribute} (ha : a.Writable) (rest : Text) :
    attribute? (a.render ++ rest) = some (a, rest) := by
  have hsign : ∀ r : Text, trimLeft ('=' :: r) = '=' :: r := fun _ => trimLeft_of_solid_head (by decide)
  have hquote : ∀ r : Text, trimLeft (a.quote :: r) = a.quote :: r := fun r =>
    trimLeft_of_solid_head (by rcases a.quote_cases with h | h <;> rw [h] <;> decide)
  have hrender : a.render ++ rest = a.key ++ '=' :: a.quote :: (a.value ++ a.quote :: rest) := by
    rw [a.render_eq]
    simp
  obtain ⟨htake, hdrop⟩ := ha.key.span (r := '=' :: a.quote :: (a.value ++ a.quote :: rest)) (by
    intro c hc
    obtain rfl : '=' = c := by simpa using hc
    decide)
  rw [hrender, attribute?_eq_some_iff, htake, hdrop]
  refine ⟨⟨ha.key.ne_nil, rfl⟩, _, hsign _, ?_⟩
  rw [hquote]
  exact value?_quoted a.quote_cases ha.value rest

/-- Attributes that are written one after the other read back as they were written. -/
theorem items_written {as : List Attribute} (has : ∀ a ∈ as, a.Writable) :
    attributesOf (items (as.flatMap fun a => ' ' :: a.render)) = as ∧
      (residueOf (items (as.flatMap fun a => ' ' :: a.render))).blank = true := by
  induction as with
  | nil => simp [items, attributesOf, residueOf, blank]
  | cons a as ih =>
    obtain ⟨hattrs, hresidue⟩ := ih fun b hb => has b (List.mem_cons_of_mem _ hb)
    have hread : items ((a :: as).flatMap fun a => ' ' :: a.render) =
        .other ' ' :: .attribute a :: items (as.flatMap fun a => ' ' :: a.render) := by
      rw [List.flatMap_cons, List.cons_append, items_blank_cons (by decide),
        items_of_attribute? (attribute?_render (has a List.mem_cons_self) _)]
    rw [hread]
    exact ⟨congrArg (a :: ·) hattrs, hresidue⟩

theorem span_written {name : Text} (hname : IsName name) (as : List Attribute) :
    (written name as).takeWhile isWord = name ∧
      (written name as).dropWhile isWord = as.flatMap fun a => ' ' :: a.render := by
  refine hname.span fun c hc => ?_
  cases as with
  | nil => simp at hc
  | cons a as =>
    obtain rfl : ' ' = c := by simpa using hc
    decide

/-- A directive that is written out reads back as it was written. -/
theorem parse?_written {name : Text} (hname : IsName name) {as : List Attribute}
    (has : ∀ a ∈ as, a.Writable) : parse? (written name as) = some (name, as) := by
  obtain ⟨htake, hdrop⟩ := span_written hname as
  obtain ⟨hattrs, hresidue⟩ := items_written has
  obtain ⟨hattrs', hresidue'⟩ := items_trimLeft (as.flatMap fun a => ' ' :: a.render)
  rw [parse?_eq_some_iff, htake, hdrop, ← hattrs', ← hresidue', hattrs]
  exact ⟨⟨hname.ne_nil, rfl⟩, hresidue, rfl⟩

/-- What a directive reads as can be written. -/
theorem writable_of_parse? {s name : Text} {as : List Attribute} (h : parse? s = some (name, as)) :
    IsName name ∧ ∀ a ∈ as, a.Writable := by
  obtain ⟨⟨hne, rfl⟩, -, rfl⟩ := parse?_eq_some_iff.mp h
  exact ⟨isName_takeWhile hne, fun a ha => writable_of_mem_attributesOf _ ha⟩

/-! ### Written directives with other blanks -/

/-- The attributes of a written directive keep their keys where blanks around line feeds are changed. -/
theorem exists_attributes_of_reflowed {as : List Attribute} (has : ∀ a ∈ as, a.Writable) :
    ∀ {t : Text}, Reflowed (as.flatMap fun a => ' ' :: a.render) t →
      ∃ bs : List Attribute, t = (bs.flatMap fun a => ' ' :: a.render) ∧
        bs.map Attribute.key = as.map Attribute.key ∧ ∀ b ∈ bs, b.Writable := by
  induction as with
  | nil =>
    intro t h
    obtain rfl : t = [] := h.eq_of_no_feed List.not_mem_nil
    exact ⟨[], rfl, rfl, by simp⟩
  | cons a as ih =>
    intro t h
    obtain ⟨hkey, hvalue⟩ := has a List.mem_cons_self
    have hquote : isBlank a.quote = false := by
      rcases a.quote_cases with h | h <;> rw [h] <;> decide
    have hline : (a :: as).flatMap (fun a => ' ' :: a.render) = (' ' :: a.key) ++ '=' :: a.quote ::
        (a.value ++ a.quote :: as.flatMap fun a => ' ' :: a.render) := by
      rw [List.flatMap_cons, a.render_eq]
      simp
    rw [hline] at h
    obtain ⟨start, opened, rfl, hstart, hopened⟩ := h.split (by decide)
    obtain ⟨inside, rfl, hinside⟩ := hopened.split_cons hquote
    obtain ⟨v, rest, rfl, hv, hrest⟩ := hinside.split hquote
    obtain ⟨bs, rfl, hkeys, hbs⟩ := ih (fun b hb => has b (List.mem_cons_of_mem _ hb)) hrest
    have hfeed : '\n' ∉ ' ' :: a.key := by
      intro hmem
      rcases List.mem_cons.mp hmem with h | h
      · exact absurd h (by decide)
      · exact absurd (hkey.solid _ h) (by decide)
    obtain rfl : start = ' ' :: a.key := hstart.eq_of_no_feed hfeed
    have hsame : (⟨a.key, v⟩ : Attribute).quote = a.quote := by
      unfold Attribute.quote
      have hmem := hv.mem_iff (c := '"') (by decide)
      simp only [List.contains_iff_mem, hmem]
    refine ⟨⟨a.key, v⟩ :: bs, ?_, congrArg (a.key :: ·) hkeys, List.forall_mem_cons.mpr ⟨⟨hkey, ?_⟩, hbs⟩⟩
    · rw [List.flatMap_cons, Attribute.render_eq, hsame]
      simp
    · rw [hsame]
      exact fun hmem => hvalue ((hv.mem_iff hquote).mpr hmem)

theorem exists_written_of_reflowed {name t : Text} (hname : IsName name) {as : List Attribute}
    (has : ∀ a ∈ as, a.Writable) (h : Reflowed (written name as) t) :
    ∃ bs, t = written name bs ∧ bs.map Attribute.key = as.map Attribute.key ∧
      ∀ b ∈ bs, b.Writable := by
  obtain ⟨htake, hdrop⟩ := h.takeWhile fun _ => Java.isWord_of_isBlank
  rw [(span_written hname as).1] at htake
  rw [(span_written hname as).2] at hdrop
  obtain ⟨bs, hbs, hkeys, hwritable⟩ := exists_attributes_of_reflowed has hdrop
  refine ⟨bs, ?_, hkeys, hwritable⟩
  rw [written, ← hbs, ← htake, List.takeWhile_append_dropWhile]

/-! ### The canonical form -/

theorem normalize_of_none {inner : Text} (h : parse? (plain inner) = none) :
    normalize inner = plain inner := by
  simp [normalize, h]

theorem normalize_of_some {inner name : Text} {as : List Attribute}
    (h : parse? (plain inner) = some (name, as)) :
    normalize inner = written name (as.mergeSort Attribute.le) := by
  rw [← join_eq_written]
  simp [normalize, h]

theorem sorted_mergeSort (as : List Attribute) :
    (as.mergeSort Attribute.le).Pairwise fun a b => a.le b = true := by
  refine List.pairwise_mergeSort ?_ Attribute.le_total as
  intro a b c hab hbc
  exact Attribute.le_trans hab hbc

/-- Attributes are in order where others with the same keys are. -/
theorem mergeSort_of_keys {as bs : List Attribute}
    (h : bs.map Attribute.key = (as.mergeSort Attribute.le).map Attribute.key) :
    bs.mergeSort Attribute.le = bs := by
  -- the order looks at nothing but the keys
  have hkeys : ∀ {cs : List Attribute}, cs.Pairwise (fun a b => a.le b = true) ↔
      (cs.map Attribute.key).Pairwise fun k l => (⟨k, []⟩ : Attribute).le ⟨l, []⟩ = true := by
    intro cs
    rw [List.pairwise_map]
    rfl
  refine List.mergeSort_of_pairwise ?_
  rw [hkeys, h, ← hkeys]
  exact sorted_mergeSort as

theorem tight_written {name : Text} (hname : IsName name) (as : List Attribute) :
    Tight (written name as) := by
  constructor
  · intro c hc
    rw [written, List.head?_append_of_ne_nil _ hname.ne_nil] at hc
    exact hname.solid c (List.mem_of_mem_head? hc)
  · intro c hc
    rcases List.eq_nil_or_concat' as with rfl | ⟨as, a, rfl⟩
    · rw [written, List.flatMap_nil, List.append_nil] at hc
      exact hname.solid c (List.mem_of_getLast? hc)
    · have hend : written name (as ++ [a]) =
          (written name as ++ ' ' :: a.key ++ '=' :: a.quote :: a.value) ++ [a.quote] := by
        rw [written, written, List.flatMap_append, List.flatMap_singleton, a.render_eq]
        simp
      rw [hend, List.getLast?_concat] at hc
      obtain rfl : a.quote = c := Option.some.inj hc
      rcases a.quote_cases with h | h <;> rw [h] <;> decide

theorem tight_normalize (inner : Text) : Tight (normalize inner) := by
  cases h : parse? (plain inner) with
  | none =>
    rw [normalize_of_none h]
    exact tight_trim _
  | some p =>
    obtain ⟨name, as⟩ := p
    rw [normalize_of_some h]
    exact tight_written (writable_of_parse? h).1 _

theorem plain_of_tight {s : Text} (hs : Tight s) (hhead : s.head? ≠ some '@') : plain s = s := by
  rw [plain, hs.trim_eq]
  cases s with
  | nil => rfl
  | cons c s =>
    have hc : ¬(c == '@') = true := by simpa using hhead
    rw [List.dropWhile_cons_of_neg (p := (· == '@')) hc, hs.trim_eq]

/-- A directive in canonical form that does not begin with a role mark stays as it is, also where the
    blanks around its line feeds have been changed. -/
theorem normalize_of_reflowed {inner t : Text} (h : Reflowed (normalize inner) t) (ht : Tight t)
    (hhead : (normalize inner).head? ≠ some '@') : normalize t = t := by
  have hplain : plain t = t := by
    refine plain_of_tight ht fun hmark => hhead ?_
    obtain ⟨r, rfl⟩ := List.head?_eq_some_iff.mp hmark
    obtain ⟨s, hs, -⟩ := h.symm.split_cons (by decide)
    rw [hs]
    rfl
  cases hparse : parse? (plain inner) with
  | none =>
    rw [normalize_of_none hparse] at h
    rw [normalize_of_none, hplain]
    rw [hplain]
    exact parse?_eq_none_of_reflowed h hparse
  | some p =>
    obtain ⟨name, as⟩ := p
    obtain ⟨hname, has⟩ := writable_of_parse? hparse
    rw [normalize_of_some hparse] at h
    obtain ⟨bs, rfl, hkeys, hbs⟩ :=
      exists_written_of_reflowed hname (fun a ha => has a (List.mem_mergeSort.mp ha)) h
    rw [normalize_of_some (hplain ▸ parse?_written hname hbs), mergeSort_of_keys hkeys]

/-- A directive that begins with a role mark loses it. -/
theorem solid_normalize_ne {s : Text} (hs : Tight s) (hhead : s.head? = some '@') :
    (normalize s).solid ≠ s.solid := by
  obtain ⟨r, rfl⟩ : ∃ r : Text, s = '@' :: r := List.head?_eq_some_iff.mp hhead
  have hsolid : solid ('@' :: r) = '@' :: r.solid := solid_cons (by decide) r
  rw [hsolid]
  intro h
  cases hparse : parse? (plain ('@' :: r)) with
  | none =>
    have hinside : plain ('@' :: r) <:+: r := by
      rw [plain, hs.trim_eq, List.dropWhile_cons_of_pos (by decide)]
      exact (trim_isInfix _).trans (List.dropWhile_suffix _).isInfix
    rw [normalize_of_none hparse] at h
    have hle : (plain ('@' :: r)).solid.length ≤ r.solid.length :=
      (hinside.sublist.filter _).length_le
    rw [h, List.length_cons] at hle
    omega
  | some p =>
    obtain ⟨name, as⟩ := p
    have hname := (writable_of_parse? hparse).1
    obtain ⟨c, t, hct⟩ := List.exists_cons_of_ne_nil hname.ne_nil
    rw [normalize_of_some hparse, written, solid_append, hname.solid.solid_eq, hct] at h
    obtain rfl : c = '@' := (List.cons.inj h).1
    exact absurd (hname.word '@' (hct ▸ List.mem_cons_self)) (by decide)

/-- A directive without line feeds has none in canonical form. -/
theorem no_feed_normalize {inner : Text} (h : '\n' ∉ inner) : '\n' ∉ normalize inner := by
  have hplain : '\n' ∉ plain inner := fun hmem => h ((plain_isInfix inner).subset hmem)
  cases hparse : parse? (plain inner) with
  | none => rwa [normalize_of_none hparse]
  | some p =>
    obtain ⟨name, as⟩ := p
    have hname := (writable_of_parse? hparse).1
    obtain ⟨-, -, rfl⟩ := parse?_eq_some_iff.mp hparse
    rw [normalize_of_some hparse]
    intro hmem
    rcases List.mem_append.mp hmem with hmem | hmem
    · exact absurd (hname.solid _ hmem) (by decide)
    obtain ⟨a, ha, hmem⟩ := List.mem_flatMap.mp hmem
    have ha := List.mem_mergeSort.mp ha
    obtain ⟨hkey, hvalue⟩ := isInfix_of_mem_attributesOf _ ha
    have hsuffix : trimLeft ((plain inner).dropWhile isWord) <:+ plain inner :=
      (trimLeft_isSuffix _).trans (List.dropWhile_suffix _)
    have hquote : a.quote ≠ '\n' := by rcases a.quote_cases with h | h <;> rw [h] <;> decide
    rw [a.render_eq] at hmem
    simp only [List.mem_cons, List.mem_append, List.not_mem_nil, or_false] at hmem
    rcases hmem with h | h | h | h | h | h
    · exact absurd h (by decide)
    · exact hplain (hsuffix.subset (hkey.subset h))
    · exact absurd h (by decide)
    · exact hquote h.symm
    · exact hplain (hsuffix.subset (hvalue.subset h))
    · exact hquote h.symm

end Directive

end JspLayout
