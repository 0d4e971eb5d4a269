import JspLayout.Proofs.Indentation
import JspLayout.Proofs.Joining

/-! Laying out what is laid out.

    No line of laid out code would be joined to one before it, each line is a row of the layout, and the
    rows of a line are laid out again as they are. Main statement: where every fragment is split once and
    for all, laying out code a second time changes nothing. -/

namespace JspLayout.Java

open Text

/-! ### The fragments of a line -/

theorem solidKinds_ne_nil_of_not_blank {s : Text} (h : ¬Blank s) : solidKinds s ≠ [] := by
  rw [← solidKinds_trim]
  exact solidKinds_ne_nil (fun hnil => h ((trim_eq_nil_iff s).mp hnil)) (tight_trim s)

/-- A text that ends with `v`, which is not blank, ends with a closing brace if `v` does. -/
theorem endsWithBrace_append {u v : Text} (hu : Sealed u v.head?) (hv : ¬Blank v) :
    endsWithBrace (u ++ v) = endsWithBrace v := by
  rw [endsWithBrace_eq, endsWithBrace_eq, solidKinds_append hu,
    List.getLast?_append_of_ne_nil _ (solidKinds_ne_nil_of_not_blank hv)]

theorem Cuts.fragments_of_blank {s : Text} {fs : List Text} (h : Cuts s fs) (hs : Blank s) : fs = [] := by
  have hleft : ∀ {u v : Text}, Blank (u ++ v) → Blank u := fun hb c hc =>
    hb c (List.mem_append_left _ hc)
  cases h with
  | blank _ => rfl
  | last hu => exact absurd hs hu
  | comment hu _ _ => exact absurd (hleft hs) hu
  | cut hu _ _ _ => exact absurd (hleft hs) hu

/-- The fragments of a line end in code up to the last one, which ends as the line does. -/
theorem Cuts.exists_last {s : Text} {fs : List Text} (h : Cuts s fs) (hf : '\n' ∉ s) (hs : s ≠ [])
    (hlast : ∀ c ∈ s.getLast?, isBlank c = false) :
    ∃ init g, fs = init ++ [g] ∧ (∀ x ∈ init, modeAfter .code none x = .code) ∧
      modeAfter .code none g = modeAfter .code none s ∧ endsWithBrace g = endsWithBrace s := by
  have htrim : ∀ {u : Text}, '\n' ∉ u → modeAfter .code none u = .code →
      modeAfter .code none u.trim = .code := fun hfu hm =>
    (read_trim rests_code hfu (by rw [hm]; rfl)).1.trans hm
  induction h with
  | blank hw => exact absurd (eq_nil_of_blank hw hlast) hs
  | @last u hu =>
    obtain ⟨w, hw, hparts⟩ := exists_blank_trim hlast
    have hmode := (read_blank_append rests_code hw u.trim).1
    rw [← hparts] at hmode
    exact ⟨[], u.trim, rfl, by simp, hmode.symm, endsWithBrace_trim u⟩
  | @comment u c hu hm ha =>
    rw [List.mem_append, not_or] at hf
    have hspace : Blank [' '] := Blank.cons (by decide) blank_nil
    have hgap : Apart u.trim (' ' :: c).head? := Or.inl (plain_of_isBlank (by decide))
    refine ⟨[], _, rfl, by simp, ?_, ?_⟩
    · rw [modeAfter_append_apart hgap, modeAfter_append_apart ha, htrim hf.1 hm, hm]
      exact (read_blank_append rests_code hspace c).1
    · have hblank := solidKinds_blank_append hspace c
      rw [List.singleton_append] at hblank
      rw [endsWithBrace_eq, endsWithBrace_eq, solidKinds_append (sealed_of_apart (htrim hf.1 hm) hgap),
        solidKinds_append (sealed_of_apart hm ha), solidKinds_trim, hblank]
  | @cut u s fs hu hm ha hcuts ih =>
    rw [List.mem_append, not_or] at hf
    by_cases hnil : s = []
    · -- nothing stands after the piece, so it is the last one
      subst hnil
      obtain rfl := hcuts.fragments_of_blank blank_nil
      refine ⟨[], u.trim, rfl, by simp, ?_, ?_⟩
      · rw [List.append_nil, htrim hf.1 hm, hm]
      · rw [List.append_nil, endsWithBrace_trim]
    · rw [List.getLast?_append_of_ne_nil _ hnil] at hlast
      obtain ⟨init, g, hfs, hinit, hmode, hbrace⟩ := ih hf.2 hnil hlast
      refine ⟨u.trim :: init, g, by rw [hfs]; rfl,
        List.forall_mem_cons.mpr ⟨htrim hf.1 hm, hinit⟩, ?_, ?_⟩
      · rw [modeAfter_append_apart ha, hm, hmode]
      · rw [endsWithBrace_append (sealed_of_apart hm ha) (fun hb => hnil (eq_nil_of_blank hb hlast)),
          hbrace]

theorem RowPiece.blank_eq_false {x : Text} (h : RowPiece x) : x.blank = false := by
  rw [blank_eq_false_iff, h.tight.trim_eq]
  exact h.ne

namespace Indenter

variable {st : Indenter}

/-! ### Rows of fragments -/

/-- Every fragment is split once and for all where the indenter meets it. -/
def SplitEach (st : Indenter) : List Text → Prop
  | [] => True
  | f :: fs => st.SplitsOnce f ∧ SplitEach (st.lay f).2 fs

instance decidableSplitEach : ∀ (st : Indenter) (fs : List Text), Decidable (st.SplitEach fs)
  | _, [] => inferInstanceAs (Decidable True)
  | st, f :: fs =>
    have := decidableSplitEach (st.lay f).2 fs
    inferInstanceAs (Decidable (st.SplitsOnce f ∧ SplitEach (st.lay f).2 fs))

theorem Steady.relaid_all : ∀ {fs : List Text} {st : Indenter}, Steady st → (∀ f ∈ fs, RowPiece f) →
    st.SplitEach fs → st.layAll ((st.layAll fs).1.map Row.text) = st.layAll fs
  | [], _, _, _, _ => rfl
  | f :: fs, st, h, hfs, honce => by
    obtain ⟨hf, hrest⟩ := List.forall_mem_cons.mp hfs
    have ih := Steady.relaid_all (h.lay f) hrest honce.2
    rw [Indenter.layAll, List.map_append, layAll_append, (h.relaid hf honce.1).again, ih]

/-- The rows of the fragments of a line are pieces that end in code up to the last one, which ends as
    the last fragment does. -/
theorem Steady.rows_all {g : Text} : ∀ {init : List Text} {st : Indenter}, Steady st →
    (∀ f ∈ init ++ [g], RowPiece f) → st.SplitEach (init ++ [g]) →
      (∀ f ∈ init, modeAfter .code none f = .code) →
        ∃ rows r, (st.layAll (init ++ [g])).1.map Row.text = rows ++ [r] ∧
          (∀ x ∈ rows, RowPiece x ∧ modeAfter .code none x = .code) ∧ RowPiece r ∧
            modeAfter .code none r = modeAfter .code none g ∧ endsWithBrace r = endsWithBrace g
  | [], st, h, hfs, honce, _ => by
    obtain ⟨rows, r, hrows, hinit, hr⟩ := (h.relaid (hfs g (by simp)) honce.1).rows
    rw [List.nil_append, layAll_singleton]
    exact ⟨rows, r, hrows, fun x hx => ⟨(hinit x hx).1, (hinit x hx).2.1⟩, hr⟩
  | f :: init, st, h, hfs, honce, hcode => by
    obtain ⟨hf, hrest⟩ := List.forall_mem_cons.mp hfs
    obtain ⟨hmode, hmodes⟩ := List.forall_mem_cons.mp hcode
    obtain ⟨a, r, hrows, ha, hr, hrmode, _⟩ := (h.relaid hf honce.1).rows
    obtain ⟨b, r', hrows', hb, hlast⟩ := Steady.rows_all (h.lay f) hrest honce.2 hmodes
    refine ⟨a ++ r :: b, r', ?_, ?_, hlast⟩
    · rw [List.cons_append, Indenter.layAll, List.map_append, hrows, hrows']
      simp
    · intro x hx
      rcases List.mem_append.mp hx with hx | hx
      · exact ⟨(ha x hx).1, (ha x hx).2.1⟩
      · rcases List.mem_cons.mp hx with rfl | hx
        · exact ⟨hr, hrmode.trans hmode⟩
        · exact hb x hx

/-- Rows of which only the last can end with a closing brace are not joined to each other. -/
theorem isChain_of_open {r : Text} {rest : List Text} (hrest : (r :: rest).IsChain Unjoined) :
    ∀ {rows : List Text} {prev : Text}, (∀ x ∈ rows, endsWithBrace x = false) →
      (∀ x ∈ (rows ++ [r]).head?, Unjoined prev x) → (prev :: (rows ++ r :: rest)).IsChain Unjoined
  | [], _, _, hfirst => List.isChain_cons_cons.mpr ⟨hfirst r rfl, hrest⟩
  | x :: rows, _, hopen, hfirst => by
    obtain ⟨hx, hrows⟩ := List.forall_mem_cons.mp hopen
    refine List.isChain_cons_cons.mpr ⟨hfirst x rfl, isChain_of_open hrest hrows ?_⟩
    exact fun _ _ hbrace => absurd hbrace (by simp [hx])

/-- Where no fragment would be joined to what stands before it, no row would. -/
theorem Steady.isChain_rows : ∀ {fs : List Text} {st : Indenter} {prev prev' : Text}, Steady st →
    (∀ f ∈ fs, RowPiece f) → st.SplitEach fs →
      (endsWithBrace prev' = true → endsWithBrace prev = true) →
        (prev :: fs).IsChain Unjoined →
          (prev' :: (st.layAll fs).1.map Row.text).IsChain Unjoined
  | [], _, _, _, _, _, _, _, _ => List.isChain_singleton _
  | f :: fs, st, prev, prev', h, hfs, honce, hprev, hchain => by
    obtain ⟨hf, hrest⟩ := List.forall_mem_cons.mp hfs
    obtain ⟨hunjoined, hnext⟩ := List.isChain_cons_cons.mp hchain
    have hrelaid := h.relaid hf honce.1
    obtain ⟨rows, r, hrows, hinit, hr, _, hbrace⟩ := hrelaid.rows
    have ih : (r :: ((st.lay f).2.layAll fs).1.map Row.text).IsChain Unjoined :=
      Steady.isChain_rows (h.lay f) hrest honce.2 (fun hb => hbrace ▸ hb) hnext
    rw [Indenter.layAll, List.map_append, hrows, List.append_assoc]
    refine isChain_of_open ih (fun x hx => (hinit x hx).2.2) fun x hx hb => ?_
    have hpiece : RowPiece x := by
      rcases List.mem_append.mp (List.mem_of_mem_head? hx) with hx | hx
      · exact (hinit x hx).1
      · rwa [List.mem_singleton.mp hx]
    have hcont := hunjoined (hprev hb)
    rw [hf.tight.trim_eq] at hcont
    rw [hpiece.tight.trim_eq, ← Bool.not_eq_true]
    intro hx'
    rw [hrelaid.begins x (hrows ▸ hx) hx'] at hcont
    exact absurd hcont (by decide)

/-! ### Rows of lines -/

theorem layLine_of_trim {a b : Text} (h : a.trim = b.trim) (st : Indenter) :
    st.layLine a = st.layLine b := by
  simp only [layLine, h]

theorem layLines_of_trim : ∀ {a b : List Text}, a.map trim = b.map trim → ∀ st : Indenter,
    st.layLines a = st.layLines b
  | [], [], _, _ => rfl
  | x :: a, y :: b, h, st => by
    rw [List.map_cons, List.map_cons, List.cons.injEq] at h
    rw [layLines, layLines, layLine_of_trim h.1]
    simp only [layLines_of_trim h.2]

theorem layLines_append (st : Indenter) (a b : List Text) :
    st.layLines (a ++ b) =
      ((st.layLines a).1 ++ ((st.layLines a).2.layLines b).1, ((st.layLines a).2.layLines b).2) := by
  induction a generalizing st with
  | nil => rfl
  | cons line a ih =>
    rw [List.cons_append, layLines, layLines]
    simp only [ih, List.append_assoc]

theorem layLines_singleton (st : Indenter) (line : Text) : st.layLines [line] = st.layLine line := by
  simp [layLines]

theorem layLine_of_piece {x : Text} (hx : RowPiece x) (hst : st.inComment = false) :
    st.layLine x = ((st.lay x).1, { (st.lay x).2 with inComment := (scan x true).2 }) := by
  have hscan := scan_piece hx.piece hx.feed hx.tight hx.ne
  simp only [Indenter.layLine, hx.tight.trim_eq, hx.ne, if_false, hst, hscan, layAll_singleton,
    Bool.false_eq_true]

/-- Pieces that end in code up to the last one are laid out as lines as they are as fragments. -/
theorem Steady.layLines_pieces {r : Text} (hr : RowPiece r) : ∀ {rows : List Text} {st : Indenter},
    Steady st → st.inComment = false →
      (∀ x ∈ rows, RowPiece x ∧ modeAfter .code none x = .code) →
        st.layLines (rows ++ [r]) = ((st.layAll (rows ++ [r])).1,
          { (st.layAll (rows ++ [r])).2 with inComment := (scan r true).2 })
  | [], st, _, hst, _ => by
    rw [List.nil_append, layLines_singleton, layAll_singleton, layLine_of_piece hr hst]
  | x :: rows, st, h, hst, hrows => by
    obtain ⟨⟨hx, hmode⟩, hrest⟩ := List.forall_mem_cons.mp hrows
    have hshut : (scan x true).2 = false := by
      rw [← Bool.not_eq_true, scan_opens_iff hx.feed, hmode]
      decide
    have hkept : (st.lay x).2.inComment = false := (h.inComment_lay x).trans hst
    have hline : st.layLine x = st.lay x := by
      rw [layLine_of_piece hx hst, hshut, ← hkept]
    rw [List.cons_append, layLines, Indenter.layAll, hline]
    simp only [Steady.layLines_pieces hr (h.lay x) hkept hrest]

/-- What the rows of a line are to the line. Laid out as lines they are the same rows, and none of them
    would be joined to `prev'`, which stands before them as `prev` stands before the line. -/
structure RelaidLine (st : Indenter) (line : Text) : Prop where
  again : st.layLines ((st.layLine line).1.map Row.text) = st.layLine line
  linked : ∀ {prev prev' : Text} {more : List Text},
    (endsWithBrace prev' = true → endsWithBrace prev = true) →
      (line.blank = false → Unjoined prev line) →
        (∀ last, (endsWithBrace last = true →
            endsWithBrace (if line.blank then prev else line) = true) → Linked last more) →
          Linked prev' ((st.layLine line).1.map Row.text ++ more)

theorem relaidLine_of_blank {line : Text} (h : line.trim = []) : RelaidLine st line := by
  have hrow : st.layLine line = ([⟨0, []⟩], st) := by simp [Indenter.layLine, h]
  have hblank : line.blank = true := (blank_iff line).mpr ((trim_eq_nil_iff line).mp h)
  constructor
  · rw [hrow]
    exact layLines_singleton st []
  · intro prev prev' more hprev _ hmore
    rw [hblank] at hmore
    rw [hrow]
    exact hmore prev' hprev

theorem relaidLine_of_inComment {line : Text} (h : line.trim ≠ []) (hst : st.inComment = true) :
    RelaidLine st line := by
  obtain ⟨x, hrow, hx⟩ : ∃ x, (st.layLine line).1.map Row.text = [x] ∧ x.trim = line.trim := by
    simp only [Indenter.layLine, h, if_false, hst, if_true, commentRow, List.map_singleton]
    refine ⟨_, rfl, ?_⟩
    split
    · exact (trim_blank_append (Blank.cons (by decide) blank_nil) line.trim).trans (trim_trim line)
    · exact trim_trim line
  have hsolid : line.blank = false := (blank_eq_false_iff line).mpr h
  constructor
  · rw [hrow, layLines_singleton, layLine_of_trim hx]
  · intro prev prev' more hprev hunjoined hmore
    have hxsolid : x.blank = false := by rw [← blank_trim, hx, blank_trim, hsolid]
    rw [hrow, List.singleton_append, Linked, List.filter_cons_of_pos (by simp [hxsolid])]
    refine List.isChain_cons_cons.mpr ⟨fun hb => ?_, hmore x fun hb => ?_⟩
    · rw [hx]
      exact hunjoined hsolid (hprev hb)
    · rwa [hsolid, if_neg (by decide), ← endsWithBrace_trim, ← hx, endsWithBrace_trim]

theorem Steady.relaidLine_of_code (h : Steady st) {line : Text} (hf : '\n' ∉ line)
    (hne : line.trim ≠ []) (hst : st.inComment = false)
    (honce : st.SplitEach (scan line.trim true).1) : RelaidLine st line := by
  have hft : '\n' ∉ line.trim := fun h => hf ((trim_isInfix line).subset h)
  have hpieces := rowPiece_of_mem_scan hft (tight_trim line)
  obtain ⟨init, g, hfs, hinit, hmode, hbrace⟩ :=
    (cuts_scan hft true).exists_last hft hne (tight_trim line).2
  have hline : st.layLine line = ((st.layAll (scan line.trim true).1).1,
      { (st.layAll (scan line.trim true).1).2 with inComment := (scan line.trim true).2 }) := by
    simp only [Indenter.layLine, hne, if_false, hst, Bool.false_eq_true]
  have hall := h.relaid_all hpieces honce
  obtain ⟨rows, r, hrows, hcode, hr, hrmode, hrbrace⟩ :=
    h.rows_all (hfs ▸ hpieces) (hfs ▸ honce) hinit
  rw [← hfs] at hrows
  have hsolid : ∀ x ∈ rows ++ [r], RowPiece x := by
    intro x hx
    rcases List.mem_append.mp hx with hx | hx
    · exact (hcode x hx).1
    · rwa [List.mem_singleton.mp hx]
  have hopens : (scan r true).2 = (scan line.trim true).2 := by
    rw [Bool.eq_iff_iff, scan_opens_iff hr.feed, scan_opens_iff hft, hrmode, hmode]
  constructor
  · rw [hline, hrows, h.layLines_pieces hr hst hcode, ← hrows, hall, hopens]
  · intro prev prev' more hprev hunjoined hmore
    have hblank : line.blank = false := (blank_eq_false_iff line).mpr hne
    have hstart : Unjoined prev line.trim := by
      intro hb
      rw [trim_trim]
      exact hunjoined hblank hb
    have hchain : (prev' :: (rows ++ [r])).IsChain Unjoined := by
      rw [← hrows]
      exact h.isChain_rows hpieces honce hprev (pieces_scan hft (tight_trim line) hstart).2
    have hkept : (rows ++ [r]).filter (fun l => !l.blank) = rows ++ [r] :=
      List.filter_eq_self.mpr fun x hx => by simp [(hsolid x hx).blank_eq_false]
    have hlast := hmore r fun hb => by
      rwa [hblank, if_neg (by decide), ← endsWithBrace_trim, ← hbrace, ← hrbrace]
    rw [hline, hrows, Linked, List.filter_append, hkept, List.append_assoc]
    rw [← List.cons_append] at hchain ⊢
    exact List.isChain_split.mpr ⟨hchain, hlast⟩

/-! ### Rows of texts -/

/-- Every fragment of the lines is split once and for all where the indenter meets it. -/
def SettlesLines (st : Indenter) : List Text → Prop
  | [] => True
  | line :: lines =>
    (st.inComment = false → st.SplitEach (scan line.trim true).1) ∧ SettlesLines (st.layLine line).2 lines

instance decidableSettlesLines : ∀ (st : Indenter) (ls : List Text), Decidable (st.SettlesLines ls)
  | _, [] => inferInstanceAs (Decidable True)
  | st, line :: lines =>
    have := decidableSettlesLines (st.layLine line).2 lines
    inferInstanceAs (Decidable ((st.inComment = false → st.SplitEach (scan line.trim true).1) ∧
      SettlesLines (st.layLine line).2 lines))

theorem Steady.relaidLine (h : Steady st) {line : Text} (hf : '\n' ∉ line)
    (honce : st.inComment = false → st.SplitEach (scan line.trim true).1) : RelaidLine st line := by
  by_cases hne : line.trim = []
  · exact relaidLine_of_blank hne
  cases hst : st.inComment with
  | true => exact relaidLine_of_inComment hne hst
  | false => exact h.relaidLine_of_code hf hne hst (honce hst)

theorem Steady.relaid_lines : ∀ {lines : List Text} {st : Indenter}, Steady st →
    (∀ l ∈ lines, '\n' ∉ l) → st.SettlesLines lines →
      st.layLines ((st.layLines lines).1.map Row.text) = st.layLines lines
  | [], _, _, _, _ => rfl
  | line :: lines, st, h, hf, honce => by
    obtain ⟨hline, hrest⟩ := List.forall_mem_cons.mp hf
    have ih := Steady.relaid_lines (h.layLine line) hrest honce.2
    rw [layLines, List.map_append, layLines_append, (h.relaidLine hline honce.1).again, ih]

theorem Steady.linked_rows : ∀ {lines : List Text} {st : Indenter} {prev prev' : Text}, Steady st →
    (∀ l ∈ lines, '\n' ∉ l) → st.SettlesLines lines →
      (endsWithBrace prev' = true → endsWithBrace prev = true) → Linked prev lines →
        Linked prev' ((st.layLines lines).1.map Row.text)
  | [], _, _, _, _, _, _, _, _ => List.isChain_singleton _
  | line :: lines, st, prev, prev', h, hf, honce, hprev, hlinked => by
    obtain ⟨hline, hrest⟩ := List.forall_mem_cons.mp hf
    rw [layLines, List.map_append]
    refine (h.relaidLine hline honce.1).linked hprev hlinked.head fun last hlast => ?_
    exact Steady.linked_rows (h.layLine line) hrest honce.2 hlast hlinked.tail

end Indenter

/-! ### Laying out twice -/

/-- Every fragment of the code is split once and for all. -/
def Settled (code : Text) : Prop := ({} : Indenter).SettlesLines (joinContinuations code).lines

instance (code : Text) : Decidable (Settled code) :=
  inferInstanceAs (Decidable (({} : Indenter).SettlesLines (joinContinuations code).lines))

theorem foldl_joinLine_ne_nil : ∀ {lines before : List Text}, before ++ lines ≠ [] →
    lines.foldl joinLine before ≠ []
  | [], _, h => by simpa using h
  | line :: lines, before, _ => by
    rw [List.foldl_cons]
    exact foldl_joinLine_ne_nil (by simp [joinLine_ne_nil])

theorem no_feed_foldl_joinLine : ∀ {lines before : List Text}, (∀ l ∈ before ++ lines, '\n' ∉ l) →
    ∀ l ∈ lines.foldl joinLine before, '\n' ∉ l
  | [], _, h => by simpa using h
  | line :: lines, before, h => by
    rw [List.foldl_cons]
    refine no_feed_foldl_joinLine fun l hl => ?_
    rcases List.mem_append.mp hl with hl | hl
    · refine no_feed_joinLine (fun x hx => h x ?_) l hl
      rcases List.mem_cons.mp hx with rfl | hx <;> simp [*]
    · exact h l (by simp [hl])

/-- The lines of code whose continuations are joined. -/
theorem lines_joinContinuations (code : Text) :
    (joinContinuations code).lines = (code.lines.foldl joinLine []).reverse := by
  refine lines_unlines ?_ fun l hl => ?_
  · simpa using foldl_joinLine_ne_nil (by simpa using lines_ne_nil code)
  · exact no_feed_foldl_joinLine (by simpa using lines_no_feed code) l (List.mem_reverse.mp hl)

theorem trim_render {unit : Text} (h : Blank unit) (row : Row) :
    trim (row.render unit) = row.text.trim :=
  trim_blank_append (blank_times h _) _

/-- The layout of laid out code is the layout of the code. -/
theorem layout_reformatWith {unit code : Text} (hunit : Blank unit) (hfeed : '\n' ∉ unit)
    (h : Settled code) : layout (reformatWith unit code) = layout code := by
  have hf := lines_no_feed (joinContinuations code)
  have hagain := Indenter.steady_start.relaid_lines hf h
  have htrim : ((layout code).map (Row.render unit)).map trim = ((layout code).map Row.text).map trim := by
    simp only [List.map_map]
    exact List.map_congr_left fun row _ => trim_render hunit row
  -- no line of the output is joined, so its lines are the rows
  have hlinked : Linked [] ((layout code).map (Row.render unit)) := by
    have hinput := linked_foldl_joinLine code.lines
    rw [← lines_joinContinuations] at hinput
    have htext := Indenter.steady_start.linked_rows hf h (fun hb => hb) hinput
    rw [← linked_trim] at htext ⊢
    rwa [htrim]
  have hlines := lines_reformatWith hfeed code
  have hfold : ((layout code).map (Row.render unit)).foldl joinLine [] =
      ((layout code).map (Row.render unit)).reverse ++ [] := Linked.foldl_joinLine hlinked
  have hjoined : (joinContinuations (reformatWith unit code)).lines =
      (layout code).map (Row.render unit) := by
    rw [lines_joinContinuations, hlines, hfold, List.append_nil, List.reverse_reverse]
  rw [layout, hjoined, Indenter.layLines_of_trim htrim]
  exact congrArg Prod.fst hagain

/-- Where every fragment is split once and for all, laying out code a second time changes nothing,
    whatever a level of indentation is. -/
theorem reformat_reformat (code : Text) (width : Int) (useTabs : Bool) (h : Settled code) :
    reformat (reformat code width useTabs) width useTabs = reformat code width useTabs := by
  have hlayout := layout_reformatWith (blank_indentUnit width useTabs) (no_feed_indentUnit width useTabs) h
  rw [reformat, reformat, reformatWith, hlayout]
  rfl

/-- Headers and labels with a statement on their line, a comment over two lines, and a continuation after
    a block on one line. -/
theorem reformat_reformat_method :
    let code : Text := ("void f() \x7b\nfor (;;) x(); // a\nswitch (a) \x7b\ncase 1: y();\n" ++
      "default: /* b\n* c */\n\x7d\nif (b) \x7b z(); \x7d\nelse y();\n\x7d").toList
    Settled code ∧ reformat (reformat code 2 false) 2 false = reformat code 2 false := by
  intro code
  have hsettled : Settled code := by decide +kernel
  exact ⟨hsettled, reformat_reformat code 2 false hsettled⟩

/-- A second layout splits the inner one of two headers on a line, moves the statement after a label
    outside every `switch`, and moves the statement after an `else` whose block has extra depth. -/
theorem reformat_reformat_ne :
    let headers : Text := "if (a) if (b) x();".toList
    let label : Text := "case 1: x();".toList
    let continued : Text := "if (a)\nif (b) \x7b\nx();\n\x7d else y();".toList
    reformat (reformat headers 2 false) 2 false ≠ reformat headers 2 false ∧
      reformat (reformat label 2 false) 2 false ≠ reformat label 2 false ∧
        reformat (reformat continued 2 false) 2 false ≠ reformat continued 2 false := by
  decide +kernel

end JspLayout.Java
