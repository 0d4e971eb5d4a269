import JspLayout.Proofs.Relaying
import Mathlib.Tactic.MkIffOfInductiveProp

/-! How deep fragments are laid out.

    The depth of a row is made up of the open braces, the innermost `switch` body, the headers that wait
    and the extra depths of the open blocks. Main statements: after any fragments these are kept in order
    and none of them is negative, so no row is laid out at a negative depth; and headers without braces
    put each other and the statement after them one level deeper each, and leave nothing behind. -/

namespace JspLayout.Java

open Text

/-- A fragment whose code is a control header without a statement and without a brace. -/
@[mk_iff] structure LoneHeader (fragment : Text) : Prop where
  no_braces : countBraces (codePart fragment) = (0, 0)
  begins : (codePart fragment).head? ≠ some '}' ∧ (codePart fragment).head? ≠ some '{'
  no_label : splitCaseLabel (codePart fragment) = none
  header : splitControlHeader (codePart fragment) = some (codePart fragment, [])

/-- A fragment whose code is a statement without a brace, and neither a label nor a control header. -/
@[mk_iff] structure LoneStatement (fragment : Text) : Prop where
  ne : codePart fragment ≠ []
  no_braces : countBraces (codePart fragment) = (0, 0)
  begins : (codePart fragment).head? ≠ some '}' ∧ (codePart fragment).head? ≠ some '{'
  ends : (codePart fragment).getLast? ≠ some '}' ∧ (codePart fragment).getLast? ≠ some '{'
  no_label : splitCaseLabel (codePart fragment) = none
  no_header : splitControlHeader (codePart fragment) = none

instance (fragment : Text) : Decidable (LoneHeader fragment) :=
  decidable_of_iff _ (loneHeader_iff fragment).symm

instance (fragment : Text) : Decidable (LoneStatement fragment) :=
  decidable_of_iff _ (loneStatement_iff fragment).symm

theorem gain_of_no_braces {f : Text} (h : countBraces (codePart f) = (0, 0)) (hlead : leads f = false) :
    gain f = 0 := by
  rw [gain, h, hlead]
  rfl

namespace Indenter

variable {st : Indenter}

/-! ### No depth is negative -/

theorem switchOffset_nonneg (st : Indenter) : 0 ≤ st.switchOffset := by
  unfold switchOffset
  split
  · exact Int.le_refl 0
  · split <;> decide

theorem Steady.carried_nonneg (h : Steady st) : 0 ≤ st.carried := by
  rw [carried_eq_sum fun x hx => (h.offsets_lt x hx).2.1]
  have hpos : ∀ x ∈ st.offsets, 0 < x.2 := fun x hx => (h.offsets_lt x hx).2.2
  generalize st.offsets = l at hpos
  induction l with
  | nil => exact Int.le_refl 0
  | cons x l ih =>
    obtain ⟨hx, hl⟩ := List.forall_mem_cons.mp hpos
    have hsum := ih hl
    rw [List.foldr_cons]
    omega

theorem depth_labelRows {row : Row} {depth : Int} {head tail : Text}
    (h : row ∈ labelRows depth head tail) : depth ≤ row.depth := by
  rw [labelRows] at h
  split at h
  · obtain rfl := List.mem_singleton.mp h
    exact Int.le_refl depth
  · rcases List.mem_cons.mp h with rfl | h
    · exact Int.le_refl depth
    · obtain rfl := List.mem_singleton.mp h
      exact Int.le_add_one (Int.le_refl depth)

/-- No row of a label lies above the block it stands in. -/
theorem depth_label {f : Text} (hlabel : splitCaseLabel (codePart f) ≠ none) {row : Row}
    (hrow : row ∈ (st.lay f).1) : st.level + st.carried ≤ row.depth := by
  obtain ⟨⟨head, tail⟩, hsplit⟩ := Option.ne_none_iff_exists'.mp hlabel
  rw [lay_of_label hsplit] at hrow
  have hdepth : row.depth ∈ (labelRows (st.level + st.carried) head tail).map Row.depth := by
    rw [← map_depth_withComment (splitTrailingComment f).2]
    exact List.mem_map_of_mem hrow
  obtain ⟨row', hrow', hsame⟩ := List.mem_map.mp hdepth
  rw [← hsame]
  exact depth_labelRows hrow'

/-- What a fragment is laid out in lies at no negative depth. -/
theorem Steady.depth_lay (h : Steady st) (f : Text) : ∀ row ∈ (st.lay f).1, 0 ≤ row.depth := by
  intro row hrow
  have hcarried := h.carried_nonneg
  by_cases hlabel : splitCaseLabel (codePart f) = none
  · have hdepth := h.depth_statement hlabel hrow
    have hlevel := (h.entered f).1
    have hoffset := switchOffset_nonneg (st.entered f)
    omega
  · have hdepth := depth_label hlabel hrow
    have hlevel := h.level
    omega

theorem Steady.depth_layAll : ∀ {fs : List Text} {st : Indenter}, Steady st →
    ∀ row ∈ (st.layAll fs).1, 0 ≤ row.depth
  | [], _, _ => by simp [Indenter.layAll]
  | f :: fs, st, h => by
    rw [Indenter.layAll]
    exact List.forall_mem_append.mpr ⟨h.depth_lay f, Steady.depth_layAll (h.lay f)⟩

end Indenter

/-- The indenter after any fragments, and the rows they were laid out in. The level and the number of
    waiting headers are not negative; from the outermost on, the levels of the `switch` bodies rise, from
    one up to the level, and so do the levels of the blocks with an extra depth, each of which is open
    and adds at least one. So every row is written with as many units as it is deep. -/
theorem invariant_layAll (fragments : List Text) :
    let laid := ({} : Indenter).layAll fragments
    0 ≤ laid.2.level ∧ 0 ≤ laid.2.pending ∧
      laid.2.switches.reverse.Pairwise (· < ·) ∧
      (∀ s ∈ laid.2.switches, 1 ≤ s ∧ s ≤ laid.2.level) ∧
      (laid.2.offsets.map Prod.fst).reverse.Pairwise (· < ·) ∧
      (∀ x ∈ laid.2.offsets, 0 ≤ x.1 ∧ x.1 < laid.2.level ∧ 1 ≤ x.2) ∧
      ∀ row ∈ laid.1, 0 ≤ row.depth ∧
        ∀ unit : Text, ∃ n : Nat, row.depth = n ∧ row.render unit = unit.times n ++ row.text := by
  intro laid
  have hsteady : laid.2.Steady := Indenter.steady_start.layAll fragments
  refine ⟨hsteady.level, hsteady.pending, List.pairwise_reverse.mpr hsteady.switches_sorted,
    hsteady.switches_le, List.pairwise_reverse.mpr (List.pairwise_map.mpr hsteady.offsets_sorted),
    hsteady.offsets_lt, fun row hrow => ?_⟩
  have hdepth := Indenter.steady_start.depth_layAll row hrow
  exact ⟨hdepth, fun unit => ⟨row.depth.toNat, (Int.toNat_of_nonneg hdepth).symm, rfl⟩⟩

/-! ### Headers without braces -/

namespace Indenter

variable {st : Indenter}

/-- How deep a statement is laid out that no header waits for. -/
def base (st : Indenter) : Int := st.level + st.switchOffset + st.carried

@[simp] theorem base_with_pending (st : Indenter) (n : Int) : base { st with pending := n } = st.base :=
  rfl

/-- A header takes one row, and one more header waits. -/
theorem Steady.lay_loneHeader (h : Steady st) {f : Text} (hf : LoneHeader f) :
    st.lay f = ([⟨st.base + st.pending, rowText (codePart f) (splitTrailingComment f).2⟩],
      { st with pending := st.pending + 1 }) := by
  have hlead : leads f = false := decide_eq_false hf.begins.1
  obtain ⟨_, _, _, hheading, _⟩ := exists_heading hf.header
  obtain ⟨c, hlast, hc⟩ := hheading.getLast?
  have hopens : (codePart f).getLast? ≠ some '{' := by
    rw [hlast, ne_eq, Option.some.injEq]
    rintro rfl
    exact absurd hc (by decide +kernel)
  exact h.lay_header hlead (gain_of_no_braces hf.no_braces hlead) hopens hf.no_label hf.header

/-- A statement takes one row as deep as the headers that wait make it, and none waits after it. -/
theorem Steady.lay_loneStatement (h : Steady st) {f : Text} (hf : LoneStatement f) :
    st.lay f = ([⟨st.base + st.pending, rowText (codePart f) (splitTrailingComment f).2⟩],
      { st with pending := 0 }) := by
  have hlead : leads f = false := decide_eq_false hf.begins.1
  have hwhole : Indivisible (codePart f) := ⟨hf.no_label, Or.inr (by simp [hf.no_header])⟩
  have hextra : st.extraDepth (codePart f) = st.pending := if_neg hf.begins.2
  have hbraces := applyBraces_idle { st with pending := 0 } (gain_of_no_braces hf.no_braces hlead) h.level
    fun s hs => (h.switches_le s hs).2
  have hstays := leaveOffsets_idle { st with pending := 0 } fun x hx => (h.offsets_lt x hx).2.1
  rw [lay_of_statement hf.ne hlead hf.no_label]
  simp only [layStatement_indivisible hwhole (Or.inr hf.ends.2), hextra, hbraces, hstays,
    withComment_single, base]

/-- Headers one after another: each is laid out one level deeper than the one before it. -/
theorem Steady.layAll_loneHeaders : ∀ {headers : List Text} {st : Indenter}, Steady st →
    (∀ f ∈ headers, LoneHeader f) →
      st.layAll headers =
        (headers.mapIdx fun i f =>
            ⟨st.base + st.pending + i, rowText (codePart f) (splitTrailingComment f).2⟩,
          { st with pending := st.pending + headers.length })
  | [], st, _, _ => by simp [Indenter.layAll]
  | f :: headers, st, h, hheaders => by
    obtain ⟨hf, hrest⟩ := List.forall_mem_cons.mp hheaders
    have hlay := h.lay_loneHeader hf
    have hnext := h.lay f
    rw [hlay] at hnext
    have ih := Steady.layAll_loneHeaders hnext hrest
    simp only [base_with_pending] at ih
    rw [Indenter.layAll, hlay]
    simp only [ih, List.singleton_append, List.mapIdx_cons, List.length_cons]
    refine Prod.ext (congrArg₂ List.cons ?_ (congrArg (List.mapIdx · headers) ?_)) ?_
    · simp
    · funext i f
      simp only [Row.mk.injEq, and_true]
      omega
    · simp only [Indenter.mk.injEq, true_and, and_true]
      omega

end Indenter

/-- Headers without braces do not drift. In any place where no header waits, each of them is laid out one
    level deeper than the one before it, the statement after them one level deeper than the last of them,
    starting where the statement alone would stand; and the indenter is as it was before. -/
theorem layAll_headers_statement {st : Indenter} (hst : st.Reachable) (hpending : st.pending = 0)
    {headers : List Text} (hheaders : ∀ f ∈ headers, LoneHeader f) {statement : Text}
    (hstatement : LoneStatement statement) :
    ∃ row : Row, st.lay statement = ([row], st) ∧
      st.layAll (headers ++ [statement]) =
        ((headers.mapIdx fun i f =>
            ⟨row.depth + i, rowText (codePart f) (splitTrailingComment f).2⟩) ++
          [⟨row.depth + headers.length, row.text⟩], st) := by
  have hrows := hst.steady.layAll_loneHeaders hheaders
  have hnext : Indenter.Steady { st with pending := st.pending + headers.length } := by
    have := hst.steady.layAll headers
    rwa [hrows] at this
  have halone := hst.steady.lay_loneStatement hstatement
  have hlast := hnext.lay_loneStatement hstatement
  have hsame : ({ st with pending := 0 } : Indenter) = st := by rw [← hpending]
  simp only [hpending, hsame, Int.add_zero, Int.zero_add, Indenter.base_with_pending] at halone hlast hrows
  exact ⟨_, halone, by rw [Indenter.layAll_append, Indenter.layAll_singleton, hrows, hlast]⟩

/-- Three headers, two of them with a comment, under a label of a `switch` in a block with an extra depth. -/
theorem layAll_headers_statement_switch :
    let st : Indenter := (((((({} : Indenter).lay "for (;;)".toList).2.lay "while (a)".toList).2.lay
      "\x7b".toList).2.lay "switch (x) \x7b".toList).2.lay "case 1:".toList).2
    let headers : List Text := ["if (a) // one", "else if (c == ')')", "for (;;) /* two */"].map String.toList
    let statement : Text := "y(\"\x7b\"); // three".toList
    st.pending = 0 ∧ (∀ f ∈ headers, LoneHeader f) ∧ LoneStatement statement ∧
      ∃ row, row.depth = 4 ∧ st.lay statement = ([row], st) ∧
        st.layAll (headers ++ [statement]) =
          ((headers.mapIdx fun i f =>
              ⟨row.depth + i, rowText (codePart f) (splitTrailingComment f).2⟩) ++
            [⟨row.depth + headers.length, row.text⟩], st) := by
  intro st headers statement
  have hst : st.Reachable := .lay _ (.lay _ (.lay _ (.lay _ (.lay _ .start))))
  have hpending : st.pending = 0 := by decide +kernel
  have hheaders : ∀ f ∈ headers, LoneHeader f := by decide +kernel
  have hstatement : LoneStatement statement := by decide +kernel
  obtain ⟨row, halone, hall⟩ := layAll_headers_statement hst hpending hheaders hstatement
  have hdepth : (st.lay statement).1.map Row.depth = [4] := by decide +kernel
  rw [halone] at hdepth
  exact ⟨hpending, hheaders, hstatement, row, List.singleton_injective hdepth, halone, hall⟩

end JspLayout.Java
