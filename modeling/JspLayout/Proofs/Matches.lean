import JspLayout.Proofs.Formatting

/-! Every marker is found once.

    In the marker buffer of a page, the name of the markers occurs nowhere but in the markers, so a marker
    starts only where one was written, and its number tells which it is. Main statement: each marker is
    found at one place, these places are in the order of the blocks and apart from each other, and the
    sources of the blocks in their place give the page back. -/

namespace JspLayout

open Text

namespace Marker

/-- Where the marker with the given number starts and ends in a text, for every place where one starts;
    the places are counted from `pos` on. -/
def spansFrom (tag : Text) (index : Nat) (inTag : Bool) (pos : Nat) : Text → List (Nat × Nat)
  | [] => []
  | c :: s =>
    ((after? tag index inTag (c :: s)).map fun rest =>
      (pos, pos + ((c :: s).length - rest.length))).toList ++ spansFrom tag index inTag (pos + 1) s

end Marker

/-- The text with what stands at the given places replaced; the places are counted from `pos` on. -/
def replaceSpans (pos : Nat) : List ((Nat × Nat) × Text) → Text → Text
  | [], s => s
  | (span, new) :: rest, s =>
    s.take (span.1 - pos) ++ (new ++ replaceSpans span.2 rest (s.drop (span.2 - pos)))

/-- The spans are those of the markers that stand for the blocks: each the only one of its marker, and
    one after the other. -/
structure FoundAt (tag buffer : Text) (pos : Nat) (es : List Placeholder) (spans : List (Nat × Nat)) :
    Prop where
  only : List.Forall₂ (fun e span => Marker.spansFrom tag e.index e.inTag pos buffer = [span]) es spans
  apart : spans.Pairwise fun p q => p.2 ≤ q.1
  inside : ∀ p ∈ spans, pos ≤ p.1 ∧ p.1 < p.2

/-! ### Places where a marker starts -/

namespace Marker

variable {tag : Text} {index : Nat} {inTag : Bool}

theorem after?_eq_none {s : Text} (h : ¬opening inTag :: tag <+: s) : after? tag index inTag s = none := by
  rw [Option.eq_none_iff_forall_not_mem]
  intro r hr
  obtain ⟨t, ht, rfl⟩ := after?_eq_some_iff.mp hr
  exact h (ht.starts.trans (List.prefix_append t r))

/-- A part in which no marker starts has no span. -/
theorem spansFrom_append {p s : Text} (h : ∀ u, u ≠ [] → u <:+ p → ¬opening inTag :: tag <+: u ++ s)
    (pos : Nat) :
    spansFrom tag index inTag pos (p ++ s) = spansFrom tag index inTag (pos + p.length) s := by
  induction p generalizing pos with
  | nil => rfl
  | cons c p ih =>
    have hnone : after? tag index inTag (c :: (p ++ s)) = none :=
      after?_eq_none (h (c :: p) (List.cons_ne_nil c p) List.suffix_rfl)
    rw [List.cons_append, spansFrom, hnone, ih fun u hu hsuf => h u hu (hsuf.trans (List.suffix_cons c p)),
      List.length_cons, Nat.add_right_comm, Nat.add_assoc]
    rfl

theorem isSome_find?_of_spansFrom {s : Text} {pos : Nat} {span : Nat × Nat}
    (h : spansFrom tag index inTag pos s = [span]) : (find? tag index inTag s).isSome = true := by
  induction s generalizing pos with
  | nil => simp [spansFrom] at h
  | cons c s ih =>
    rw [find?]
    cases hfound : after? tag index inTag (c :: s) with
    | some r => rfl
    | none =>
      rw [spansFrom, hfound] at h
      rw [Option.isSome_map]
      exact ih h

variable (hname : IsName tag)

include hname

/-- Where a marker was written, only this one is found. -/
theorem after?_render_append (index k : Nat) (inTag b : Bool) (r : Text) :
    after? tag k b (render tag index inTag ++ r) = if k = index ∧ b = inTag then some r else none := by
  split
  · next h =>
    obtain ⟨rfl, rfl⟩ := h
    exact after?_eq_some_iff.mpr ⟨_, spells_render tag k b, rfl⟩
  · next h =>
    rw [Option.eq_none_iff_forall_not_mem]
    intro r' hr'
    obtain ⟨t, ht, he⟩ := after?_eq_some_iff.mp hr'
    have hsign := sign_of_spells hname ht (r := r')
    rw [← he, solid_append, solid_render hname, List.append_assoc] at hsign
    exact h (eq_of_sign hsign)

/-- Past the first character of a marker as it is written, no other marker starts. -/
theorem not_opening_in_render {b : Bool} {u s t : Text} (ht : render tag index inTag = opening inTag :: t)
    (hu : u ≠ []) (hsuf : u <:+ t) (hs : ¬tag <+: s) : ¬opening b :: tag <+: u ++ s := by
  cases inTag with
  | true =>
    obtain rfl : tag ++ '_' :: (ofNat index ++ ['_']) = t := by simpa [render, word, opening] using ht
    exact not_opening_in_word hname hu hsuf hs
  | false =>
    obtain rfl : tag ++ (' ' :: (numberKey ++ '=' :: '"' :: (ofNat index ++ ['"', '>']))) ++
        '<' :: '/' :: (tag ++ ['>']) = t := by
      simpa [render, element, opening] using ht
    refine not_opening_in_element hname ?_ hu hsuf
    rw [List.mem_cons, not_or]
    exact ⟨by cases b <;> decide, opening_not_mem_number index b⟩

end Marker

/-! ### The markers of the buffer -/

theorem render_opens (tag : Text) (index : Nat) (inTag : Bool) :
    ∃ t, Marker.render tag index inTag = Marker.opening inTag :: t := by
  cases inTag with
  | false => exact ⟨_, rfl⟩
  | true => exact ⟨_, rfl⟩

theorem marked_opens (tag : Text) (index : Nat) (ss : List Spot) :
    marked tag index ss = [] ∨ ∃ b t, marked tag index ss = Marker.opening b :: t := by
  cases ss with
  | nil => exact Or.inl rfl
  | cons s ss =>
    obtain ⟨t, ht⟩ := render_opens tag index s.inTag
    exact Or.inr ⟨s.inTag, t ++ (s.after ++ marked tag (index + 1) ss), by rw [marked, ht]; rfl⟩

section

variable {tag : Text} (hname : Marker.IsName tag)

include hname

/-- In markup without the name of the markers, no marker starts. -/
theorem spansFrom_markup {lead s : Text} (hlead : ¬tag <:+: lead)
    (hs : s = [] ∨ ∃ b t, s = Marker.opening b :: t) (k : Nat) (b : Bool) (pos : Nat) :
    Marker.spansFrom tag k b pos (lead ++ s) = Marker.spansFrom tag k b (pos + lead.length) s := by
  refine Marker.spansFrom_append (fun u hu hsuf hopens => ?_) pos
  obtain ⟨d, u, rfl⟩ := List.exists_cons_of_ne_nil hu
  have hu' : ¬tag <:+: u := fun h => hlead ((List.infix_cons h).trans hsuf.isInfix)
  exact Marker.not_prefix_append hname hu' hs (List.cons_prefix_cons.mp hopens).2

/-- The first marker of the buffer is found where it was written, and all others after it. -/
theorem spansFrom_marked_cons {lead : Text} (hlead : ¬tag <:+: lead) {s : Spot}
    (hafter : ¬tag <:+: s.after) (ss : List Spot) (index k : Nat) (b : Bool) (pos : Nat) :
    let start := pos + lead.length
    let stop := start + (Marker.render tag index s.inTag).length
    Marker.spansFrom tag k b pos (lead ++ marked tag index (s :: ss)) =
      (if k = index ∧ b = s.inTag then [(start, stop)] else []) ++
        Marker.spansFrom tag k b stop (s.after ++ marked tag (index + 1) ss) := by
  intro start stop
  obtain ⟨t, ht⟩ := render_opens tag index s.inTag
  have hrest : ¬tag <+: s.after ++ marked tag (index + 1) ss :=
    Marker.not_prefix_append hname hafter (marked_opens tag (index + 1) ss)
  have hfound := Marker.after?_render_append hname index k s.inTag b (s.after ++ marked tag (index + 1) ss)
  have hstop : pos + lead.length + 1 + t.length = stop := by
    simp only [stop, start, ht, List.length_cons]
    omega
  rw [spansFrom_markup hname hlead (marked_opens tag index (s :: ss)), marked]
  rw [ht, List.cons_append] at hfound ⊢
  rw [Marker.spansFrom, hfound, Marker.spansFrom_append fun u hu hsuf =>
    Marker.not_opening_in_render hname ht hu hsuf hrest, hstop]
  have hlength (r : Text) : start + ((Marker.opening s.inTag :: (t ++ r)).length - r.length) = stop := by
    simp only [List.length_cons, List.length_append]
    omega
  refine congrArg (· ++ _) ?_
  split
  · exact congrArg (fun n => [(start, n)]) (hlength _)
  · rfl

/-- Markers with numbers before those of the buffer are not found in it. -/
theorem spansFrom_eq_nil {k : Nat} {b : Bool} : ∀ {ss : List Spot} {index pos : Nat} {lead : Text},
    k < index → ¬tag <:+: lead → (∀ s ∈ ss, ¬tag <:+: s.after) →
      Marker.spansFrom tag k b pos (lead ++ marked tag index ss) = []
  | [], _, pos, lead, _, hlead, _ => spansFrom_markup hname hlead (Or.inl rfl) k b pos
  | s :: ss, index, pos, lead, hk, hlead, hafter => by
    obtain ⟨hs, hss⟩ := List.forall_mem_cons.mp hafter
    rw [spansFrom_marked_cons hname hlead hs, if_neg (by omega), List.nil_append]
    exact spansFrom_eq_nil (Nat.lt_succ_of_lt hk) hs hss

end

section

variable {index : Nat} {ss : List Spot} {es : List Placeholder}

theorem Stands.le_index (h : Stands index ss es) : ∀ e ∈ es, index ≤ e.index := by
  induction h with
  | nil => simp
  | cons _ ih =>
    exact List.forall_mem_cons.mpr ⟨Nat.le_refl _, fun e he => Nat.le_of_succ_le (ih e he)⟩

theorem Stands.map_index (h : Stands index ss es) :
    es.map Placeholder.index = List.range' index es.length := by
  induction h with
  | nil => rfl
  | cons _ ih => rw [List.map_cons, ih, List.length_cons, List.range'_succ]

theorem Stands.map_block (h : Stands index ss es) :
    es.map Placeholder.block = ss.map Spot.block := by
  induction h with
  | nil => rfl
  | cons _ ih => rw [List.map_cons, List.map_cons, ih]

/-- Each marker of the buffer is found once, and the sources of the blocks in the place of the markers
    give the page back. -/
theorem exists_foundAt {tag : Text} (hname : Marker.IsName tag) (h : Stands index ss es) :
    ∀ (pos : Nat) {lead : Text}, ¬tag <:+: lead → (∀ s ∈ ss, ¬tag <:+: s.after) →
      ∃ spans, FoundAt tag (lead ++ marked tag index ss) pos es spans ∧
        replaceSpans pos (spans.zip (es.map fun e => e.block.raw)) (lead ++ marked tag index ss) =
          pageOf lead ss := by
  induction h with
  | nil index =>
    intro pos lead _ _
    exact ⟨[], ⟨.nil, .nil, by simp⟩, by simp [replaceSpans, marked, pageOf]⟩
  | @cons index position s ss es hstands ih =>
    intro pos lead hlead hafter
    obtain ⟨hs, hss⟩ := List.forall_mem_cons.mp hafter
    let start := pos + lead.length
    let stop := start + (Marker.render tag index s.inTag).length
    obtain ⟨spans, hfound, hpage⟩ := ih stop hs hss
    have hstep (k b) : Marker.spansFrom tag k b pos (lead ++ marked tag index (s :: ss)) =
        (if k = index ∧ b = s.inTag then [(start, stop)] else []) ++
          Marker.spansFrom tag k b stop (s.after ++ marked tag (index + 1) ss) :=
      spansFrom_marked_cons hname hlead hs ss index k b pos
    have hlater : List.Forall₂ (fun e span => Marker.spansFrom tag e.index e.inTag pos
        (lead ++ marked tag index (s :: ss)) = [span]) es spans := by
      refine List.Forall₂.imp ?_ ((List.forall₂_and_left es spans).mpr ⟨hstands.le_index, hfound.only⟩)
      rintro e span ⟨hle, honly⟩
      rw [hstep, if_neg (by omega), honly]
      rfl
    have hlt : start < stop := by
      obtain ⟨t, ht⟩ := render_opens tag index s.inTag
      simp only [stop, ht, List.length_cons]
      omega
    refine ⟨(start, stop) :: spans, ⟨.cons ?_ hlater, ?_, ?_⟩, ?_⟩
    · rw [hstep, if_pos ⟨rfl, rfl⟩, spansFrom_eq_nil hname (Nat.lt_succ_self index) hs hss]
      rfl
    · exact List.pairwise_cons.mpr ⟨fun q hq => (hfound.inside q hq).1, hfound.apart⟩
    · refine List.forall_mem_cons.mpr ⟨⟨Nat.le_add_right .., hlt⟩, fun q hq => ?_⟩
      obtain ⟨hle, hq⟩ := hfound.inside q hq
      exact ⟨by omega, hq⟩
    · have htake : (lead ++ marked tag index (s :: ss)).take (start - pos) = lead :=
        List.take_left' (Nat.add_sub_cancel_left ..).symm
      have hdrop : (lead ++ marked tag index (s :: ss)).drop (stop - pos) =
          s.after ++ marked tag (index + 1) ss := by
        rw [marked, ← List.append_assoc]
        refine List.drop_left' ?_
        rw [List.length_append]
        omega
      rw [List.map_cons, List.zip_cons_cons, replaceSpans, htake, hdrop, hpage, pageOf_cons]

theorem FoundAt.missingMarkers_eq_nil {tag buffer : Text} {pos : Nat} {spans : List (Nat × Nat)}
    (h : FoundAt tag buffer pos es spans) : missingMarkers buffer tag es = [] := by
  have hsome : ∀ e ∈ es, (Marker.find? tag e.index e.inTag buffer).isSome = true := by
    have honly := h.only
    clear h
    induction honly with
    | nil => simp
    | cons hspan _ ih => exact List.forall_mem_cons.mpr ⟨Marker.isSome_find?_of_spansFrom hspan, ih⟩
  rw [missingMarkers, List.map_eq_nil_iff, List.filter_eq_nil_iff]
  intro e he
  rw [Option.isNone_iff_eq_none, ← ne_eq, ← Option.isSome_iff_ne_none]
  exact hsome e he

end

/-! ### Pages -/

theorem infix_pageOf_of_mem {s : Spot} {ss : List Spot} (hs : s ∈ ss) (lead : Text) :
    s.block.raw ++ s.after <:+: pageOf lead ss := by
  have hpart : s.block.raw ++ s.after <:+: ss.flatMap fun s => s.block.raw ++ s.after :=
    List.infix_of_mem_flatten (List.mem_map_of_mem hs)
  exact hpart.trans (List.suffix_append _ _).isInfix

theorem infix_pageOf (lead : Text) (ss : List Spot) :
    lead <:+: pageOf lead ss ∧ ∀ s ∈ ss, s.after <:+: pageOf lead ss :=
  ⟨(List.prefix_append _ _).isInfix, fun _ hs =>
    (List.suffix_append _ _).isInfix.trans (infix_pageOf_of_mem hs lead)⟩

/-- The blocks of a page are numbered in order, and in its marker buffer each of their markers is found
    at one place, in the order of the blocks; the sources of the blocks at these places give the page. -/
theorem markers_found_once (page : Text) :
    let tag := freeMarkerName page
    let buffer := (markerBuffer (segments page) tag).1
    let entries := (markerBuffer (segments page) tag).2
    entries.map Placeholder.index = List.range entries.length ∧
      entries.map Placeholder.block = (segments page).filterMap Segment.block? ∧
      (∃ spans, FoundAt tag buffer 0 entries spans ∧
        replaceSpans 0 (spans.zip (entries.map fun e => e.block.raw)) buffer = page) ∧
      missingMarkers buffer tag entries = [] := by
  intro tag buffer entries
  obtain ⟨hbuffer, hstands⟩ := markerBuffer_eq tag (segments page)
  have hpage : pageOf (spots [] (segments page)).1 (spots [] (segments page)).2 = page :=
    (parts_spots 0 page []).1
  have hfree := Marker.not_isInfix_free page
  obtain ⟨hlead, hafter⟩ := infix_pageOf (spots [] (segments page)).1 (spots [] (segments page)).2
  rw [hpage] at hlead hafter
  obtain ⟨spans, hfound, hreplaced⟩ := exists_foundAt (Marker.isName_free page) hstands 0
    (fun h => hfree (h.trans hlead)) fun s hs h => hfree (h.trans (hafter s hs))
  rw [← hbuffer] at hfound hreplaced
  refine ⟨?_, ?_, ⟨spans, hfound, hreplaced.trans hpage⟩, hfound.missingMarkers_eq_nil⟩
  · rw [hstands.map_index, List.range_eq_range']
  · rw [hstands.map_block, map_block_spots]

end JspLayout
