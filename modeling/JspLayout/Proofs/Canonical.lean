import JspLayout.Proofs.Directives

/-! One form for a directive.

    A directive is spelled as a name and attributes with blanks around them, each with its value between
    quotes of either kind or bare. Main statements: reading accepts exactly what is spelled so
    (`parse?_eq_some_iff_spelled`), and the canonical form reads back as the name and the attributes in
    order, so that two directives have the same canonical form if and only if they differ at most in
    quotes, in blanks and in the order of attributes with different keys. -/

namespace JspLayout.Directive

open Text

/-! ### Spellings -/

/-- How a value is spelled in front of `rest`: between quotes of a kind that it does not hold, or bare,
    up to a character that ends it. -/
inductive SpellsValue (v : Text) : Text → Text → Prop
  | quoted {q : Char} (hq : q = '"' ∨ q = '\'') (hv : q ∉ v) (rest : Text) :
      SpellsValue v (q :: (v ++ [q])) rest
  | bare {rest : Text} (hne : v ≠ []) (hv : ∀ c ∈ v, isBare c = true)
      (hrest : ∀ c ∈ rest.head?, isBare c = false) : SpellsValue v v rest

/-- How attributes are spelled, in their order, with blanks around them and around their signs. -/
inductive SpellsAll : List Attribute → Text → Prop
  | nil : SpellsAll [] []
  | blank {c : Char} {as : List Attribute} {s : Text} (hc : isBlank c = true) (h : SpellsAll as s) :
      SpellsAll as (c :: s)
  | cons {a : Attribute} {as : List Attribute} {w w' u rest : Text} (hkey : IsName a.key)
      (hw : Blank w) (hw' : Blank w') (hv : SpellsValue a.value u rest) (h : SpellsAll as rest) :
      SpellsAll (a :: as) (a.key ++ (w ++ '=' :: (w' ++ (u ++ rest))))

/-- How a directive is spelled: its name, and from the first character that is not of a name on, its
    attributes. -/
structure Spelled (s name : Text) (as : List Attribute) : Prop where
  isName : IsName name
  spells : ∃ r, s = name ++ r ∧ (∀ c ∈ r.head?, isWord c = false) ∧ SpellsAll as r

theorem head?_dropWhile {p : Char → Bool} (s : Text) : ∀ c ∈ (s.dropWhile p).head?, p c = false := by
  intro c hc
  have hstop := List.head?_dropWhile_not p s
  rw [Option.mem_def.mp hc] at hstop
  simpa using hstop

theorem SpellsValue.head {v u rest : Text} (h : SpellsValue v u rest) :
    ∀ c ∈ (u ++ rest).head?, isBlank c = false := by
  intro c hc
  cases h with
  | quoted hq hv =>
    obtain rfl := Option.some.inj hc
    rcases hq with rfl | rfl <;> decide
  | bare hne hv =>
    rw [List.head?_append_of_ne_nil _ hne] at hc
    have := hv c (List.mem_of_mem_head? hc)
    simp_all [isBare]

theorem value?_eq_some_iff {s v rest : Text} :
    value? s = some (v, rest) ↔ ∃ u, SpellsValue v u rest ∧ s = u ++ rest := by
  constructor
  · intro h
    rcases value?_cases h with ⟨q, hq, hv, hs⟩ | ⟨hne, hv, hrest⟩
    · exact ⟨_, .quoted hq hv rest, by simpa using hs⟩
    · refine ⟨v, .bare hne ?_ ?_, by rw [hv, hrest, List.takeWhile_append_dropWhile]⟩
      · exact fun c hc => List.mem_takeWhile_imp (hv ▸ hc)
      · exact hrest ▸ head?_dropWhile s
  · rintro ⟨u, h, rfl⟩
    cases h with
    | quoted hq hv =>
      rw [List.cons_append, List.append_assoc]
      exact value?_quoted hq hv rest
    | bare hne hv hrest =>
      obtain ⟨htake, hdrop⟩ := span_append hv hrest
      rw [value?_bare (by rwa [htake]), htake, hdrop]

theorem attribute?_eq_some_iff_spells {s rest : Text} {a : Attribute} :
    attribute? s = some (a, rest) ↔ IsName a.key ∧ ∃ w w' u, Blank w ∧ Blank w' ∧
      SpellsValue a.value u rest ∧ s = a.key ++ (w ++ '=' :: (w' ++ (u ++ rest))) := by
  rw [attribute?_eq_some_iff]
  constructor
  · rintro ⟨⟨hne, hkey⟩, r, hr, hv⟩
    obtain ⟨u, hu, hval⟩ := value?_eq_some_iff.mp hv
    obtain ⟨w, hw, hsign⟩ := exists_blank_trimLeft (s.dropWhile isWord)
    obtain ⟨w', hw', hvalue⟩ := exists_blank_trimLeft r
    refine ⟨hkey ▸ isName_takeWhile (hkey ▸ hne), w, w', u, hw, hw', hu, ?_⟩
    rw [← hval, ← hvalue, ← hr, ← hsign, ← hkey, List.takeWhile_append_dropWhile]
  · rintro ⟨hname, w, w', u, hw, hw', hu, rfl⟩
    have hend : ∀ c ∈ (w ++ '=' :: (w' ++ (u ++ rest))).head?, isWord c = false := by
      intro c hc
      cases w with
      | nil =>
        obtain rfl := Option.some.inj hc
        decide
      | cons b w =>
        obtain rfl := Option.some.inj hc
        exact Java.isWord_of_isBlank (hw _ List.mem_cons_self)
    obtain ⟨htake, hdrop⟩ := hname.span hend
    refine ⟨⟨hname.ne_nil, htake⟩, w' ++ (u ++ rest), ?_, ?_⟩
    · rw [hdrop, trimLeft_blank_append hw, trimLeft_of_solid_head (by decide)]
    · rw [trimLeft_blank_append hw', trimLeft_of_head hu.head]
      exact value?_eq_some_iff.mpr ⟨u, hu, rfl⟩

/-- A body that holds nothing but attributes and blanks is one that spells them. -/
theorem spellsAll_iff {s : Text} {as : List Attribute} : SpellsAll as s ↔
    (residueOf (items s)).blank = true ∧ attributesOf (items s) = as := by
  constructor
  · intro h
    induction h with
    | nil => simp [items, residueOf, attributesOf, Text.blank]
    | @blank c as s hc _ ih =>
      have hresidue : residueOf (.other c :: items s) = c :: residueOf (items s) := rfl
      rw [items_blank_cons hc, hresidue, Text.blank, List.all_cons, hc, Bool.true_and]
      exact ih
    | cons hkey hw hw' hv _ ih =>
      rw [items_of_attribute? (attribute?_eq_some_iff_spells.mpr ⟨hkey, _, _, _, hw, hw', hv, rfl⟩)]
      exact ⟨ih.1, congrArg (_ :: ·) ih.2⟩
  · rintro ⟨hblank, rfl⟩
    fun_induction items s with
    | case1 => exact .nil
    | case2 c r a rest hattr ih =>
      obtain ⟨hkey, w, w', u, hw, hw', hu, hs⟩ := attribute?_eq_some_iff_spells.mp hattr
      rw [hs]
      exact .cons hkey hw hw' hu (ih hblank)
    | case3 c r hattr ih =>
      have hresidue : (isBlank c && (residueOf (items r)).blank) = true := hblank
      rw [Bool.and_eq_true] at hresidue
      exact .blank hresidue.1 (ih hresidue.2)

/-- Reading a directive finds the name and the attributes that it spells. -/
theorem parse?_eq_some_iff_spelled {s name : Text} {as : List Attribute} :
    parse? s = some (name, as) ↔ Spelled s name as := by
  obtain ⟨hattrs, hresidue⟩ := items_trimLeft (s.dropWhile isWord)
  rw [parse?_eq_some_iff, ← hattrs, ← hresidue, ← spellsAll_iff]
  constructor
  · rintro ⟨⟨hne, rfl⟩, h⟩
    exact ⟨isName_takeWhile hne, _, List.takeWhile_append_dropWhile.symm, head?_dropWhile s, h⟩
  · rintro ⟨hname, r, rfl, hr, h⟩
    obtain ⟨htake, hdrop⟩ := hname.span hr
    rw [hdrop]
    exact ⟨⟨hname.ne_nil, htake⟩, h⟩

/-! ### The order of attributes -/

/-- Attributes that differ only in the order of those with different keys. -/
def SameByKey (as bs : List Attribute) : Prop :=
  ∀ k, as.filter (fun a => a.key = k) = bs.filter fun a => a.key = k

theorem Attribute.le_of_key_eq {a b : Attribute} (h : a.key = b.key) : a.le b = true := by
  have := a.le_total a
  unfold Attribute.le at this ⊢
  rw [← h]
  simpa using this

theorem Attribute.key_eq_of_le {a b : Attribute} (hab : a.le b = true) (hba : b.le a = true) :
    a.key = b.key := by
  unfold Attribute.le at hab hba
  by_cases h : a.key.caseFold = b.key.caseFold
  · simp only [h, if_true] at hab hba
    exact Text.le_antisymm hab hba
  · simp only [h, Ne.symm h, if_false] at hab hba
    exact absurd (Text.le_antisymm hab hba) h

/-- Sorting keeps attributes with the same key in their order. -/
theorem sameByKey_mergeSort (as : List Attribute) : SameByKey (as.mergeSort Attribute.le) as := by
  intro k
  have hsame : (as.filter fun a => a.key = k).Pairwise fun a b => a.le b = true := by
    refine List.pairwise_of_forall_mem_list fun a ha b hb => Attribute.le_of_key_eq ?_
    rw [of_decide_eq_true (List.mem_filter.mp ha).2, of_decide_eq_true (List.mem_filter.mp hb).2]
  have hsub : (as.filter fun a => a.key = k).Sublist (as.mergeSort Attribute.le) := by
    refine List.sublist_mergeSort ?_ Attribute.le_total hsame List.filter_sublist
    intro a b c hab hbc
    exact Attribute.le_trans hab hbc
  have hfilter := hsub.filter fun a => a.key = k
  simp only [List.filter_filter, Bool.and_self] at hfilter
  exact (hfilter.eq_of_length ((List.mergeSort_perm as _).filter _).length_eq.symm).symm

theorem SameByKey.mem {as bs : List Attribute} (h : SameByKey as bs) {a : Attribute} (ha : a ∈ as) :
    a ∈ bs := by
  have hfilter : a ∈ as.filter fun b => b.key = a.key := List.mem_filter.mpr ⟨ha, by simp⟩
  rw [h] at hfilter
  exact (List.mem_filter.mp hfilter).1

theorem SameByKey.symm {as bs : List Attribute} (h : SameByKey as bs) : SameByKey bs as :=
  fun k => (h k).symm

theorem SameByKey.trans {as bs cs : List Attribute} (h : SameByKey as bs) (h' : SameByKey bs cs) :
    SameByKey as cs := fun k => (h k).trans (h' k)

/-- Attributes in order are in the order of others that are the same by key. -/
theorem SameByKey.eq_of_sorted : ∀ {as bs : List Attribute}, SameByKey as bs →
    as.Pairwise (fun a b => a.le b = true) → bs.Pairwise (fun a b => a.le b = true) → as = bs
  | [], [], _, _, _ => rfl
  | [], b :: _, h, _, _ => absurd (h.symm.mem List.mem_cons_self) List.not_mem_nil
  | a :: _, [], h, _, _ => absurd (h.mem List.mem_cons_self) List.not_mem_nil
  | a :: as, b :: bs, h, ha, hb => by
    obtain ⟨ha, has⟩ := List.pairwise_cons.mp ha
    obtain ⟨hb, hbs⟩ := List.pairwise_cons.mp hb
    -- each of the two first attributes is somewhere in the other list, so neither is after the other
    have hkey : a.key = b.key := by
      rcases List.mem_cons.mp (h.mem List.mem_cons_self) with rfl | hmem
      · rfl
      rcases List.mem_cons.mp (h.symm.mem List.mem_cons_self) with rfl | hmem'
      · rfl
      exact Attribute.key_eq_of_le (ha b hmem') (hb a hmem)
    have hfirst := h b.key
    rw [List.filter_cons_of_pos (by simpa using hkey), List.filter_cons_of_pos (by simp)] at hfirst
    obtain rfl : a = b := (List.cons.inj hfirst).1
    have htail : SameByKey as bs := by
      intro k
      have hk := h k
      by_cases hak : a.key = k
      · rw [List.filter_cons_of_pos (by simpa using hak), List.filter_cons_of_pos (by simpa using hak)] at hk
        exact (List.cons.inj hk).2
      · rwa [List.filter_cons_of_neg (by simpa using hak), List.filter_cons_of_neg (by simpa using hak)] at hk
    rw [htail.eq_of_sorted has hbs]

/-! ### The canonical form -/

theorem parse?_normalize {inner name : Text} {as : List Attribute}
    (h : parse? (plain inner) = some (name, as)) :
    parse? (normalize inner) = some (name, as.mergeSort Attribute.le) := by
  obtain ⟨hname, has⟩ := writable_of_parse? h
  rw [normalize_of_some h]
  exact parse?_written hname fun a ha => has a (List.mem_mergeSort.mp ha)

theorem head?_normalize {inner : Text} (h : (plain inner).head? ≠ some '@') :
    (normalize inner).head? ≠ some '@' := by
  cases hparse : parse? (plain inner) with
  | none => rwa [normalize_of_none hparse]
  | some p =>
    have hname := (writable_of_parse? hparse).1
    rw [normalize_of_some hparse, written, List.head?_append_of_ne_nil _ hname.ne_nil]
    intro hmark
    exact absurd (hname.word '@' (List.mem_of_mem_head? hmark)) (by decide)

/-- Directives of the same name with attributes that are the same by key have one canonical form, which
    reads back as the name and the attributes in order, those of one key in the order they were in. What
    is spelled in no such way stays as it is without blanks and role marks. A canonical form is its own,
    unless a role mark comes after those that were dropped. -/
theorem normalize_canonical (inner : Text) :
    (∀ name as, Spelled (plain inner) name as →
      (∃ bs, parse? (normalize inner) = some (name, bs) ∧ SameByKey bs as ∧
        bs.Pairwise fun a b => a.le b = true) ∧
      ∀ inner' name' as', Spelled (plain inner') name' as' →
        (normalize inner' = normalize inner ↔ name' = name ∧ SameByKey as' as)) ∧
    ((∀ name as, ¬Spelled (plain inner) name as) → normalize inner = plain inner) ∧
    ((plain inner).head? ≠ some '@' → normalize (normalize inner) = normalize inner) := by
  refine ⟨fun name as h => ?_, fun h => ?_, fun h => ?_⟩
  · rw [← parse?_eq_some_iff_spelled] at h
    refine ⟨⟨_, parse?_normalize h, sameByKey_mergeSort as, sorted_mergeSort as⟩, ?_⟩
    intro inner' name' as' h'
    rw [← parse?_eq_some_iff_spelled] at h'
    constructor
    · intro heq
      have hread := parse?_normalize h'
      rw [heq, parse?_normalize h] at hread
      obtain ⟨rfl, hsort⟩ := Prod.mk.inj (Option.some.inj hread)
      exact ⟨rfl, (sameByKey_mergeSort as').symm.trans (hsort ▸ sameByKey_mergeSort as)⟩
    · rintro ⟨rfl, hsame⟩
      have hsort : as'.mergeSort Attribute.le = as.mergeSort Attribute.le :=
        (((sameByKey_mergeSort as').trans hsame).trans (sameByKey_mergeSort as).symm).eq_of_sorted
          (sorted_mergeSort as') (sorted_mergeSort as)
      rw [normalize_of_some h', normalize_of_some h, hsort]
  · refine normalize_of_none (Option.eq_none_iff_forall_not_mem.mpr fun p hp => ?_)
    exact h p.1 p.2 (parse?_eq_some_iff_spelled.mp hp)
  · exact normalize_of_reflowed (Reflowed.refl _) (tight_normalize inner) (head?_normalize h)

/-- A bare value, and one between quotes with blanks around its sign, the other way round. -/
theorem normalize_canonical_swapped :
    normalize "@ page b=1 A = '\"'\n".toList = normalize "page A='\"' b=\"1\"".toList := by
  have hname {c : Char} (hc : isWord c = true) : IsName [c] := ⟨by simp, by simpa using hc⟩
  have hpage : IsName "page".toList := ⟨by decide, List.all_eq_true.mp (by decide)⟩
  have hone : Blank [' '] := Blank.cons (by decide) blank_nil
  have hlast : SpellsAll [⟨['A'], ['"']⟩] "A = '\"'".toList :=
    .cons (hname (by decide)) hone hone (.quoted (Or.inr rfl) (by decide) []) .nil
  have hboth : SpellsAll [⟨['b'], ['1']⟩, ⟨['A'], ['"']⟩] "b=1 A = '\"'".toList := by
    have hbare : SpellsValue ['1'] ['1'] (' ' :: "A = '\"'".toList) := by
      refine .bare (by simp) (List.forall_mem_singleton.mpr (by decide)) ?_
      rintro c ⟨⟩
      decide
    exact .cons (a := ⟨['b'], ['1']⟩) (hname (by decide)) blank_nil blank_nil hbare
      (.blank (by decide) hlast)
  have hspelled : Spelled (plain "@ page b=1 A = '\"'\n".toList) "page".toList
      [⟨['b'], ['1']⟩, ⟨['A'], ['"']⟩] := by
    refine ⟨hpage, " b=1 A = '\"'".toList, by decide +kernel, ?_, .blank (by decide) hboth⟩
    rintro c ⟨⟩
    decide
  have hwritten : plain "page A='\"' b=\"1\"".toList =
      written "page".toList [⟨['A'], ['"']⟩, ⟨['b'], ['1']⟩] := by decide +kernel
  have hswapped : Spelled (plain "page A='\"' b=\"1\"".toList) "page".toList
      [⟨['A'], ['"']⟩, ⟨['b'], ['1']⟩] := by
    rw [hwritten, ← parse?_eq_some_iff_spelled]
    refine parse?_written hpage fun a ha => ?_
    rcases List.mem_pair.mp ha with rfl | rfl
    · exact ⟨hname (by decide), by decide⟩
    · exact ⟨hname (by decide), by decide⟩
  refine (((normalize_canonical _).1 _ _ hswapped).2 _ _ _ hspelled).mpr ⟨rfl, fun k => ?_⟩
  by_cases hA : ['A'] = k
  · subst hA
    decide
  · by_cases hb : ['b'] = k <;> simp [hA, hb]

end JspLayout.Directive
