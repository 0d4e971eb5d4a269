import JspLayout.Proofs.Markers

/-! Where the markers of a page stand.

    A page is its first markup and its spots: each block with whether it stands inside a start tag and
    with the markup after it. The marker buffer writes a marker at every spot. A text that holds all
    the markers and differs from the buffer in blanks only has them at the same spots: the sign of a
    marker occurs nowhere else, as long as the markup does not hold the markers' name. -/

namespace JspLayout

open Text

/-- A block in its page: whether it stands inside a start tag, and the markup after it. -/
structure Spot where
  block : Block
  inTag : Bool
  after : Text
  deriving DecidableEq

/-- The markup before the first block, and the spots of all blocks; `before` is the markup of the
    page so far. -/
def spots (before : Text) : List Segment → Text × List Spot
  | [] => ([], [])
  | .markup text _ :: rest =>
    let (lead, ss) := spots (before ++ text) rest
    (text ++ lead, ss)
  | .block b :: rest =>
    let (lead, ss) := spots before rest
    ([], ⟨b, insideTag before, lead⟩ :: ss)

/-- The spots with a marker at each, numbered from `index` on. -/
def marked (tag : Text) : Nat → List Spot → Text
  | _, [] => []
  | index, s :: ss => Marker.render tag index s.inTag ++ (s.after ++ marked tag (index + 1) ss)

/-- The placeholders stand for the spots, numbered from `index` on. -/
inductive Stands : Nat → List Spot → List Placeholder → Prop
  | nil (index : Nat) : Stands index [] []
  | cons {index position : Nat} {s : Spot} {ss : List Spot} {es : List Placeholder} :
      Stands (index + 1) ss es → Stands index (s :: ss) (⟨index, position, s.block, s.inTag⟩ :: es)

/-! ### The marker buffer -/

/-- Only angle brackets tell whether a text ends inside a tag. -/
theorem insideTag_append (s t : Text) : insideTag (s ++ t) =
    if t.contains '<' || t.contains '>' then insideTag t else insideTag s := by
  have hfilter : (t.filter fun c => c == '<' || c == '>') = [] ↔
      ¬((t.contains '<' || t.contains '>') = true) := by
    simp only [List.filter_eq_nil_iff, Bool.or_eq_true, beq_iff_eq, List.contains_iff_mem, not_or]
    constructor
    · exact fun h => ⟨fun hm => (h _ hm).1 rfl, fun hm => (h _ hm).2 rfl⟩
    · exact fun h c hc => ⟨fun he => h.1 (he ▸ hc), fun he => h.2 (he ▸ hc)⟩
  rw [insideTag, List.filter_append]
  split
  · next h => rw [List.getLast?_append_of_ne_nil _ (fun hn => hfilter.mp hn h), insideTag]
  · next h => rw [hfilter.mpr h, List.append_nil, insideTag]

/-- The marker buffer is the markup with a marker at every spot. -/
theorem markSegments_eq (tag : Text) : ∀ (segs : List Segment) (index position : Nat) (before : Text),
    (markSegments tag index position (insideTag before) segs).1 =
        (spots before segs).1 ++ marked tag index (spots before segs).2 ∧
      Stands index (spots before segs).2 (markSegments tag index position (insideTag before) segs).2
  | [], index, _, _ => ⟨rfl, .nil index⟩
  | .markup text _ :: rest, index, position, before => by
    obtain ⟨hbuffer, hstands⟩ := markSegments_eq tag rest index (position + 1) (before ++ text)
    rw [insideTag_append] at hbuffer hstands
    exact ⟨(congrArg (text ++ ·) hbuffer).trans (List.append_assoc ..).symm, hstands⟩
  | .block b :: rest, index, position, before => by
    obtain ⟨hbuffer, hstands⟩ := markSegments_eq tag rest (index + 1) (position + 1) before
    exact ⟨congrArg (Marker.render tag index (insideTag before) ++ ·) hbuffer, .cons hstands⟩

theorem markerBuffer_eq (tag : Text) (segs : List Segment) :
    (markerBuffer segs tag).1 = (spots [] segs).1 ++ marked tag 0 (spots [] segs).2 ∧
      Stands 0 (spots [] segs).2 (markerBuffer segs tag).2 :=
  markSegments_eq tag segs 0 0 []

/-! ### Signs of markers -/

namespace Marker

theorem sign_eq (tag : Text) (index : Nat) (inTag : Bool) :
    ∃ t, sign tag index inTag = opening inTag :: (tag ++ t) := by
  cases inTag with
  | false => exact ⟨_, rfl⟩
  | true => exact ⟨'_' :: (ofNat index ++ ['_']), by simp [sign, word, opening]⟩

theorem opening_not_mem_number (index : Nat) (inTag : Bool) :
    opening inTag ∉ numberKey ++ '=' :: '"' :: (ofNat index ++ ['"', '>']) := by
  have hdigit : opening inTag ∉ ofNat index := fun hm =>
    absurd (isDigit_ofNat index _ hm) (by cases inTag <;> decide)
  simp only [List.mem_append, List.mem_cons, List.not_mem_nil, or_false, not_or]
  exact ⟨by cases inTag <;> decide, by cases inTag <;> decide, by cases inTag <;> decide, hdigit,
    by cases inTag <;> decide, by cases inTag <;> decide⟩

variable {tag : Text} (hname : IsName tag)

include hname

theorem opening_not_mem (inTag : Bool) : opening inTag ∉ tag := by
  cases inTag <;> exact hname.not_mem (by decide) (by decide)

theorem solid_render (index : Nat) (inTag : Bool) :
    (render tag index inTag).solid = sign tag index inTag ++ close tag inTag := by
  have hkey : numberKey.solid = numberKey := by decide
  cases inTag <;>
    simp (disch := decide) [render, element, word, sign, close, solid_append, solid_cons,
      solid_blank_cons, hkey, hname.solid.solid_eq, (solid_ofNat index).solid_eq]

/-- A name is not found where the opening of a marker comes next, unless it stands before it. -/
theorem not_prefix_append {g s : Text} (hg : ¬tag <:+: g) (hs : s = [] ∨ ∃ b t, s = opening b :: t) :
    ¬tag <+: g ++ s := by
  intro h
  rcases hs with rfl | ⟨b, t, rfl⟩
  · exact hg (List.append_nil g ▸ h).isInfix
  · exact hg (prefix_of_prefix_append (opening_not_mem hname b) h).isInfix

theorem tag_head {c : Char} {s : Text} (h : tag <+: c :: s) : c = 'j' := by
  obtain ⟨t, ht⟩ := h
  have := hname.head
  cases tag with
  | nil => exact absurd rfl hname.ne_nil
  | cons d tag => simp_all

/-- Past the first character of a marker inside a start tag, no other marker starts. -/
theorem not_opening_in_word {index : Nat} {inTag : Bool} {u s : Text} (hu : u ≠ [])
    (hsuf : u <:+ tag ++ '_' :: (ofNat index ++ ['_'])) (hs : ¬tag <+: s) :
    ¬opening inTag :: tag <+: u ++ s := by
  intro h
  obtain ⟨d, u, rfl⟩ := List.exists_cons_of_ne_nil hu
  obtain ⟨rfl, htag⟩ := List.cons_prefix_cons.mp h
  have hdigit : ∀ c ∈ ofNat index, c.isDigit = true := isDigit_ofNat index
  cases inTag with
  | false =>
    have := hsuf.subset List.mem_cons_self
    simp only [List.mem_append, List.mem_cons, List.not_mem_nil, or_false] at this
    rcases this with hm | hm | hm | hm
    · exact opening_not_mem hname false hm
    · exact absurd hm (by decide)
    · exact absurd (hdigit _ hm) (by decide)
    · exact absurd hm (by decide)
  | true =>
    -- the underscore is the one before the number or the one after it
    rcases List.suffix_cons_iff.mp (suffix_of_not_mem (opening_not_mem hname true) hsuf) with he | hsuf
    · obtain rfl : u = ofNat index ++ ['_'] := (List.cons.inj he).2
      obtain ⟨d, ds, hn⟩ := List.exists_cons_of_ne_nil (ofNat_ne_nil index)
      rw [hn] at htag
      have := hdigit d (by rw [hn]; exact List.mem_cons_self)
      rw [tag_head hname htag] at this
      exact absurd this (by decide)
    · have hdig : '_' ∉ ofNat index := fun hm => absurd (hdigit _ hm) (by decide)
      rcases List.suffix_cons_iff.mp (suffix_of_not_mem hdig hsuf) with he | hsuf
      · obtain rfl : u = [] := (List.cons.inj he).2
        exact hs htag
      · exact absurd (List.suffix_nil.mp hsuf) (by simp)

/-- Past the first character of a marker element, no other marker starts. -/
theorem not_opening_in_element {inTag : Bool} {u s number : Text} (hnumber : opening inTag ∉ number)
    (hu : u ≠ []) (hsuf : u <:+ tag ++ number ++ '<' :: '/' :: (tag ++ ['>'])) :
    ¬opening inTag :: tag <+: u ++ s := by
  intro h
  obtain ⟨d, u, rfl⟩ := List.exists_cons_of_ne_nil hu
  obtain ⟨rfl, htag⟩ := List.cons_prefix_cons.mp h
  have hbefore : opening inTag ∉ tag ++ number := by
    rw [List.mem_append, not_or]
    exact ⟨opening_not_mem hname inTag, hnumber⟩
  rcases List.suffix_cons_iff.mp (suffix_of_not_mem hbefore hsuf) with he | hsuf
  · obtain rfl : u = '/' :: (tag ++ ['>']) := (List.cons.inj he).2
    exact absurd (tag_head hname htag) (by decide)
  · have := hsuf.subset List.mem_cons_self
    simp only [List.mem_append, List.mem_cons, List.not_mem_nil, or_false] at this
    rcases this with hm | hm | hm
    · exact absurd hm (by cases inTag <;> decide)
    · exact opening_not_mem hname inTag hm
    · exact absurd hm (by cases inTag <;> decide)

theorem not_opening_inside (inTag' : Bool) {index : Nat} {inTag : Bool} {u s t : Text}
    (ht : sign tag index inTag ++ close tag inTag = opening inTag :: t) (hu : u ≠ []) (hsuf : u <:+ t)
    (hs : ¬tag <+: s) : ¬opening inTag' :: tag <+: u ++ s := by
  cases inTag with
  | true =>
    obtain rfl : tag ++ '_' :: (ofNat index ++ ['_']) = t := by
      simpa [sign, word, close, opening] using ht
    exact not_opening_in_word hname hu hsuf hs
  | false =>
    obtain rfl : tag ++ (numberKey ++ '=' :: '"' :: (ofNat index ++ ['"', '>'])) ++
        '<' :: '/' :: (tag ++ ['>']) = t := by
      simpa [sign, close, opening] using ht
    exact not_opening_in_element hname (opening_not_mem_number index inTag') hu hsuf

end Marker

/-! ### Spots in a laid out text -/

section

variable {tag : Text} (hname : Marker.IsName tag)

include hname

/-- Without its blanks, the marker buffer is at each spot a sign and the end of the marker. -/
theorem solid_marked_cons (index : Nat) (s : Spot) (ss : List Spot) : ∃ t,
    Marker.sign tag index s.inTag ++ Marker.close tag s.inTag = Marker.opening s.inTag :: t ∧
      (marked tag index (s :: ss)).solid =
        Marker.opening s.inTag :: (t ++ (s.after.solid ++ (marked tag (index + 1) ss).solid)) := by
  obtain ⟨r, hr⟩ := Marker.sign_eq tag index s.inTag
  refine ⟨tag ++ r ++ Marker.close tag s.inTag, by rw [hr]; rfl, ?_⟩
  rw [marked, solid_append, solid_append, Marker.solid_render hname, hr]
  rfl

theorem not_prefix_marked {g : Text} (hg : ¬tag <:+: g) (index : Nat) (ss : List Spot) :
    ¬tag <+: g ++ (marked tag index ss).solid := by
  refine Marker.not_prefix_append hname hg ?_
  cases ss with
  | nil => exact Or.inl rfl
  | cons s ss =>
    obtain ⟨t, _, ht⟩ := solid_marked_cons hname index s ss
    exact Or.inr ⟨_, _, ht⟩

/-- A sign in the buffer without its blanks is that of the first spot or comes after it. -/
theorem sign_cases {lead t : Text} {s : Spot} {ss : List Spot} {index k : Nat} {inTag : Bool}
    (hlead : ¬tag <:+: lead.solid) (hafter : ¬tag <:+: s.after.solid)
    (hsign : Marker.sign tag k inTag <+: t)
    (ht : t <:+ lead.solid ++ (marked tag index (s :: ss)).solid) :
    (t = (marked tag index (s :: ss)).solid ∧ k = index) ∨
      t <:+ s.after.solid ++ (marked tag (index + 1) ss).solid := by
  obtain ⟨r, hr⟩ := Marker.sign_eq tag k inTag
  have hopens : Marker.opening inTag :: tag <+: t :=
    List.IsPrefix.trans ⟨r, hr.symm⟩ hsign
  rcases suffix_append_cases ht with ht | ⟨u, hu, hsuf, rfl⟩
  · obtain ⟨t', hsigned, hmarked⟩ := solid_marked_cons hname index s ss
    rw [hmarked] at ht ⊢
    rcases List.suffix_cons_iff.mp ht with rfl | ht
    · rw [← List.cons_append, ← hsigned, List.append_assoc] at hsign
      exact Or.inl ⟨rfl, (Marker.eq_of_sign hsign).1⟩
    · refine Or.inr ((suffix_append_cases ht).resolve_right ?_)
      rintro ⟨u, hu, hsuf, rfl⟩
      exact Marker.not_opening_inside hname _ hsigned hu hsuf
        (not_prefix_marked hname hafter _ _) hopens
  · obtain ⟨d, u, rfl⟩ := List.exists_cons_of_ne_nil hu
    have hu' : ¬tag <:+: u := fun h => hlead ((List.infix_cons h).trans hsuf.isInfix)
    exact absurd (List.cons_prefix_cons.mp hopens).2 (not_prefix_marked hname hu' _ _)

/-- The signs in the buffer have the numbers of the spots. -/
theorem le_of_sign {k : Nat} {inTag : Bool} {t : Text} (hsign : Marker.sign tag k inTag <+: t) :
    ∀ {ss : List Spot} {index : Nat} {lead : Text}, ¬tag <:+: lead.solid →
      (∀ s ∈ ss, ¬tag <:+: s.after.solid) → t <:+ lead.solid ++ (marked tag index ss).solid → index ≤ k
  | [], index, lead, hlead, _, ht => by
    obtain ⟨r, hr⟩ := Marker.sign_eq tag k inTag
    have hopens : Marker.opening inTag :: tag <+: t := List.IsPrefix.trans ⟨r, hr.symm⟩ hsign
    rw [marked, solid_nil, List.append_nil] at ht
    have htag : tag <:+: t := (List.infix_cons List.infix_rfl).trans hopens.isInfix
    exact absurd (htag.trans ht.isInfix) hlead
  | s :: ss, index, lead, hlead, hafter, ht => by
    obtain ⟨hs, hss⟩ := List.forall_mem_cons.mp hafter
    rcases sign_cases hname hlead hs hsign ht with ⟨_, rfl⟩ | ht
    · exact Nat.le_refl _
    · exact Nat.le_of_succ_le (le_of_sign hsign hs hss ht)

end

/-- The text is the spots in order, a marker in some spelling at each. -/
inductive Laid (tag : Text) : Nat → List Spot → Text → Prop
  | nil (index : Nat) : Laid tag index [] []
  | cons {index : Nat} {s : Spot} {ss : List Spot} {t r : Text} :
      Marker.Spells tag index s.inTag t → Laid tag (index + 1) ss r →
        Laid tag index (s :: ss) (t ++ (s.after ++ r))

theorem laid_marked (tag : Text) : ∀ (index : Nat) (ss : List Spot),
    Laid tag index ss (marked tag index ss)
  | index, [] => .nil index
  | index, s :: ss => .cons (Marker.spells_render tag index s.inTag) (laid_marked tag (index + 1) ss)

/-- The same block at the same place, with the markup after it spaced anew. -/
def Spot.Respaced (s s' : Spot) : Prop :=
  s'.block = s.block ∧ s'.inTag = s.inTag ∧ s'.after.solid = s.after.solid

/-- The text holds the markers of the spots, numbered from `index` on. -/
def Found (tag text : Text) : Nat → List Spot → Prop
  | _, [] => True
  | index, s :: ss =>
    (∃ p t r, text = p ++ (t ++ r) ∧ Marker.Spells tag index s.inTag t) ∧ Found tag text (index + 1) ss

section

variable {tag : Text} (hname : Marker.IsName tag)

include hname

theorem sign_of_spells {index : Nat} {inTag : Bool} {t r : Text}
    (ht : Marker.Spells tag index inTag t) : Marker.sign tag index inTag <+: (t ++ r).solid := by
  rw [solid_append]
  rcases ht.solid hname with h | ⟨_, h⟩ <;> rw [h, List.append_assoc] <;> exact List.prefix_append _ _

/-- Markers found in a text are found after the place of an earlier one. -/
theorem found_rest {p t r lead : Text} {s : Spot} {index : Nat}
    (hlead : ¬tag <:+: lead.solid) (hafter : ¬tag <:+: s.after.solid) {ss' : List Spot}
    (htext : (p ++ (t ++ r)).solid = lead.solid ++ (marked tag index (s :: ss')).solid)
    (hr : r.solid = s.after.solid ++ (marked tag (index + 1) ss').solid) :
    ∀ {ss : List Spot} {k : Nat}, index < k → Found tag (p ++ (t ++ r)) k ss → Found tag r k ss
  | [], _, _, _ => trivial
  | s' :: ss, k, hk, ⟨⟨p', t', r', htext', ht'⟩, hfound⟩ => by
    refine ⟨?_, found_rest hlead hafter htext hr (Nat.lt_succ_of_lt hk) hfound⟩
    have hsuf : (t' ++ r').solid <:+ r.solid := by
      have hsuf : (t' ++ r').solid <:+ lead.solid ++ (marked tag index (s :: ss')).solid := by
        rw [← htext, htext', solid_append p']
        exact List.suffix_append _ _
      rw [hr]
      refine (sign_cases hname hlead hafter (sign_of_spells hname ht') hsuf).resolve_left ?_
      exact fun h => absurd h.2 (Nat.ne_of_gt hk)
    have hr' : t' ++ r' <:+ p ++ (t ++ r) := htext' ▸ List.suffix_append _ _
    have hrr : r <:+ p ++ (t ++ r) := ((List.suffix_append t r).trans (List.suffix_append p _))
    rcases List.suffix_or_suffix_of_suffix hr' hrr with ⟨q, hq⟩ | ⟨q, hq⟩
    · exact ⟨q, t', r', hq.symm, ht'⟩
    · -- the marker does not start before `r`, since it starts with no blank
      cases q with
      | nil => exact ⟨[], t', r', hq, ht'⟩
      | cons c q =>
        obtain ⟨u, rfl⟩ := ht'.starts
        rw [List.cons_append, List.cons_append, List.cons_append, List.cons.injEq] at hq
        have hc : isBlank c = false := by rw [hq.1]; cases s'.inTag <;> decide
        have hlen := hsuf.length_le
        rw [List.cons_append, List.cons_append, ← hq.1, ← hq.2, solid_cons hc, solid_append] at hlen
        simp only [List.length_cons, List.length_append] at hlen
        omega

/-- A text that holds all markers and has the characters of the marker buffer, blanks apart, is the
    spots in order with other blanks. -/
theorem exists_laid : ∀ {ss : List Spot} {index : Nat} {lead text : Text}, ¬tag <:+: lead.solid →
    (∀ s ∈ ss, ¬tag <:+: s.after.solid) →
      text.solid = lead.solid ++ (marked tag index ss).solid → Found tag text index ss →
        ∃ lead' ss' r, text = lead' ++ r ∧ lead'.solid = lead.solid ∧
          List.Forall₂ Spot.Respaced ss ss' ∧ Laid tag index ss' r
  | [], index, lead, text, _, _, htext, _ =>
    ⟨text, [], [], (List.append_nil _).symm, by rw [htext]; exact List.append_nil _, .nil, .nil index⟩
  | s :: ss, index, lead, text, hlead, hafter, htext, ⟨⟨p, t, r, hpt, ht⟩, hfound⟩ => by
    obtain ⟨hs, hss⟩ := List.forall_mem_cons.mp hafter
    subst hpt
    have hsign := sign_of_spells hname ht (r := r)
    have hsuf : (t ++ r).solid <:+ lead.solid ++ (marked tag index (s :: ss)).solid := by
      rw [← htext, solid_append p]
      exact List.suffix_append _ _
    -- the marker stands at the first spot, since the signs after it have other numbers
    have hmarker : (t ++ r).solid = (marked tag index (s :: ss)).solid := by
      rcases sign_cases hname hlead hs hsign hsuf with ⟨h, _⟩ | h
      · exact h
      · exact absurd (le_of_sign hname hsign hs hss h) (by omega)
    have hp : p.solid = lead.solid := by
      rw [solid_append, hmarker] at htext
      exact List.append_cancel_right htext
    have hr : r.solid = s.after.solid ++ (marked tag (index + 1) ss).solid := by
      rw [marked, solid_append, solid_append, Marker.solid_render hname, solid_append] at hmarker
      rcases ht.solid hname with h | ⟨hin, h⟩
      · rw [h] at hmarker
        exact List.append_cancel_left hmarker
      · rw [h, hin, List.append_assoc, List.append_assoc] at hmarker
        exact absurd (List.append_cancel_left hmarker) (by simp [Marker.close])
    obtain ⟨after, ss', r', hrest, hafter', hrespaced, hlaid⟩ :=
      exists_laid hs hss hr (found_rest hname hlead hs htext hr (Nat.lt_succ_self index) hfound)
    refine ⟨p, ⟨s.block, s.inTag, after⟩ :: ss', t ++ (after ++ r'), by rw [hrest], hp, ?_, ?_⟩
    · exact .cons ⟨rfl, rfl, hafter'⟩ hrespaced
    · exact .cons ht hlaid

end

end JspLayout
