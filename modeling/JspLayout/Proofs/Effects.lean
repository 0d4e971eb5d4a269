import JspLayout.CommandLine.Arguments
import JspLayout.Proofs.Writing

/-! What a run does to the file system.

    Formatting a file does not depend on what is done with the result, so a run is taken apart into the
    files that it gets through and the one that stops it. Main statement: whatever the front end makes of
    the arguments, nothing changes unless files are asked to be replaced and all of them can be, and then
    only regular files among them change, each to the text that it was formatted to (`run_effects`). -/

namespace JspLayout.CommandLine

/-! ### One file -/

/-- What stops a run whose settings cannot be had. -/
def loadStop : LoadError → Stop
  | .settings (.invalid e) => .complaint (.badValue e.message)
  | e => .crash (.settings e)

/-- What stops a run at a file that cannot be formatted. -/
def formatStop : FormatFailure → Stop
  | .refused e => .complaint (.failure e.message)
  | .fault f => .crash (.fault f)

/-- What comes of formatting the file at a place, whatever is done with it then. -/
def formatAt (overrides : List (Text × Value)) (w : World) (l : Location) :
    Except Stop (Source × Formatted Programs) := do
  let settings ← (buildSettings w.store w.cwd (w.denials 0) (Path.ofLocation l).parent overrides).mapError
    loadStop
  (formatFile w (.ofLocation l) settings).mapError formatStop

/-- How far a run has come after a file was formatted. -/
def Progress.next (p : Progress) (formatted : Formatted Programs) : Progress :=
  { p with
    world := { p.world.next with programs := formatted.formatter }
    notes := p.notes ++ formatted.notes }

section

variable {overrides : List (Text × Value)} {action : Action} {l : Location} {p : Progress}

theorem runFile_of_error {stop : Stop} (h : formatAt overrides p.world l = .error stop) :
    runFile overrides action l p = (p, some stop) := by
  unfold formatAt at h
  cases hsettings : buildSettings p.world.store p.world.cwd (p.world.denials 0) (Path.ofLocation l).parent
    overrides with
  | error e =>
    rw [hsettings] at h
    cases h
    rcases e with (e | f) | _ | _ | _ | _ | _ <;> simp only [runFile, hsettings, loadStop]
  | ok settings =>
    rw [hsettings] at h
    change (formatFile p.world (.ofLocation l) settings).mapError formatStop = .error stop at h
    cases hformat : formatFile p.world (.ofLocation l) settings with
    | error e =>
      rw [hformat] at h
      cases h
      cases e <;> simp only [runFile, hsettings, hformat, formatStop]
    | ok found =>
      rw [hformat] at h
      exact absurd h (by simp [Except.mapError])

theorem runFile_of_ok {source : Source} {formatted : Formatted Programs}
    (h : formatAt overrides p.world l = .ok (source, formatted)) :
    runFile overrides action l p = deliver action l source formatted.text (p.next formatted) := by
  obtain ⟨settings, hsettings, hformat⟩ := bind_eq_ok.mp h
  simp only [runFile, mapError_eq_ok.mp hsettings, mapError_eq_ok.mp hformat]
  rfl

/-- A file that is formatted already is passed over. -/
theorem runFile_of_same {source : Source} {formatted : Formatted Programs}
    (h : formatAt overrides p.world l = .ok (source, formatted)) (htext : formatted.text = source.text) :
    runFile overrides .check l p = (p.next formatted, none) ∧
      ∃ notes, runFile overrides .replace l p = ({ p.next formatted with notes }, none) := by
  constructor
  · rw [runFile_of_ok h]
    simp only [deliver, htext, bne_self_eq_false, Bool.false_eq_true, if_false]
  · rw [runFile_of_ok h]
    simp only [deliver, htext, bne_self_eq_false, Bool.not_false, if_true, Bool.false_eq_true, if_false]
    exact ⟨_, rfl⟩

end

/-- As things stand in `w`, the file `f` at a place reads as `source`, which is formatted to `text`. -/
structure Formats (overrides : List (Text × Value)) (w : World) (l : Location) (f : File)
    (source text : Text) : Prop where
  file : w.store.get? l = some (.file f)
  read : ∃ raw, Utf8.decode f.content = .ok raw ∧ source = raw.unixLines
  format : ∃ settings o formatted,
    buildSettings w.store w.cwd (w.denials 0) (Path.ofLocation l).parent overrides = .ok settings ∧
      settings.check = .ok o ∧ formatPage w.library o source w.programs = .ok formatted ∧
        formatted.text = text

theorem readSource_eq_ok {s : Store} {l : Location} (hl : s.Page l) {f : File} (hf : s.get? l = some (.file f))
    {cwd : Location} {denials : Denials} {limit : Int} {source : Source}
    (h : readSource s cwd denials (.ofLocation l) limit = .ok source) :
    source.path = .ofLocation l ∧ source.snapshot = f.snapshot ∧
      ∃ raw, Utf8.decode f.content = .ok raw ∧ source.text = raw.unixLines := by
  obtain ⟨hpath, m, g, hentry, hsnapshot, htext⟩ := of_readSource h
  cases (hl.entryAt_eq hf cwd false).symm.trans hentry
  exact ⟨hpath, hsnapshot, htext⟩

theorem formats_of_formatAt {overrides : List (Text × Value)} {w : World} {l : Location} (hl : w.store.Page l)
    {f : File} (hf : w.store.get? l = some (.file f)) {source : Source} {formatted : Formatted Programs}
    (h : formatAt overrides w l = .ok (source, formatted)) :
    source.path = .ofLocation l ∧ source.snapshot = f.snapshot ∧
      Formats overrides w l f source.text formatted.text := by
  obtain ⟨settings, hsettings, hfound⟩ := bind_eq_ok.mp h
  obtain ⟨o, ho, hfound⟩ := bind_eq_ok.mp (mapError_eq_ok.mp hfound)
  obtain ⟨limit, -, hfound⟩ := bind_eq_ok.mp hfound
  obtain ⟨source', hsource, hfound⟩ := bind_eq_ok.mp hfound
  obtain ⟨formatted', hformatted, hfound⟩ := bind_eq_ok.mp hfound
  cases hfound
  obtain ⟨hpath, hsnapshot, hread⟩ := readSource_eq_ok hl hf (mapError_eq_ok.mp hsource)
  exact ⟨hpath, hsnapshot, hf, hread, settings, o, formatted, mapError_eq_ok.mp hsettings, mapError_eq_ok.mp ho,
    mapError_eq_ok.mp hformatted, rfl⟩

/-! ### Replacing one file -/

/-- The file `f` became `f'`, which holds the text that `f` is formatted to. -/
structure Rewritten (overrides : List (Text × Value)) (w : World) (l : Location) (f f' : File) : Prop where
  content : ∃ source text, Formats overrides w l f source text ∧ text ≠ source ∧
    f'.content = Utf8.encode text
  /-- The page was read first and written next. -/
  mode : f'.mode = replacedMode (w.denials 1) f.mode

/-- The file `f` was formatted already, or became `f'`. -/
inductive Updated (overrides : List (Text × Value)) (w : World) (l : Location) (f : File) : File → Prop
  | kept {text : Text} (h : Formats overrides w l f text text) : Updated overrides w l f f
  | rewritten {f' : File} (h : Rewritten overrides w l f f') : Updated overrides w l f f'

/-- What replacing one file does: it stops and leaves everything as it was, or it updates that file and
    leaves the others as they were. -/
inductive Step (overrides : List (Text × Value)) (l : Location) (p : Progress) :
    Progress × Option Stop → Prop
  | stopped {p' : Progress} {stop : Stop} (hsame : ∀ m, p'.world.store.get? m = p.world.store.get? m) :
      Step overrides l p (p', some stop)
  | passed {p' : Progress} {f f' : File} (hf : p.world.store.get? l = some (.file f))
      (hf' : p'.world.store.get? l = some (.file f')) (hupdated : Updated overrides p.world l f f')
      (hothers : ∀ m, m ≠ l → p'.world.store.get? m = p.world.store.get? m) :
      Step overrides l p (p', none)

theorem step_runFile (overrides : List (Text × Value)) {l : Location} {p : Progress}
    (hl : p.world.store.Page l) : Step overrides l p (runFile overrides .replace l p) := by
  obtain ⟨f, hf⟩ := hl.file
  cases hformat : formatAt overrides p.world l with
  | error stop =>
    rw [runFile_of_error hformat]
    exact .stopped fun _ => rfl
  | ok found =>
    obtain ⟨source, formatted⟩ := found
    obtain ⟨hpath, hsnapshot, hformats⟩ := formats_of_formatAt hl hf hformat
    by_cases htext : formatted.text = source.text
    · obtain ⟨notes, hrun⟩ := (runFile_of_same hformat htext).2
      rw [hrun]
      exact .passed hf hf (.kept (htext ▸ hformats)) fun _ _ => rfl
    · rw [runFile_of_ok hformat]
      have hwritten := writeOutcome_writeSource hl hpath p.world.cwd (p.world.denials 1) formatted.text
      simp only [deliver, bne_iff_ne.mpr htext, Bool.not_true, Bool.false_eq_true, if_false, if_true]
      change WriteOutcome _ _ _ _ _ (writeSource (p.next formatted).world.store (p.next formatted).world.cwd
        ((p.next formatted).world.denials 0) source formatted.text) at hwritten
      generalize writeSource (p.next formatted).world.store (p.next formatted).world.cwd
        ((p.next formatted).world.denials 0) source formatted.text = written at hwritten
      cases hwritten with
      | failed hsame => exact .stopped hsame
      | replaced hfile hcontent hmode _ _ hothers =>
        rw [hsnapshot] at hmode
        exact .passed hf hfile (.rewritten ⟨⟨_, _, hformats, htext, hcontent⟩, hmode⟩) hothers

/-! ### One file after another -/

section

variable {overrides : List (Text × Value)} {action : Action} {p q : Progress}

theorem runFiles_cons_of_passed {l : Location} (h : runFile overrides action l p = (q, none))
    (ls : List Location) : runFiles overrides action (l :: ls) p = runFiles overrides action ls q := by
  rw [runFiles, h]

theorem runFiles_cons_of_stopped {l : Location} {stop : Stop}
    (h : runFile overrides action l p = (q, some stop)) (ls : List Location) :
    runFiles overrides action (l :: ls) p = (q, some stop) := by
  rw [runFiles, h]

/-- A run gets through some of the files, and the one after them stops it, if any is left. -/
theorem exists_runFiles_eq (overrides : List (Text × Value)) (action : Action) :
    ∀ (ls : List Location) (p : Progress), ∃ done rest q, ls = done ++ rest ∧
      runFiles overrides action done p = (q, none) ∧
        runFiles overrides action ls p = rest.head?.elim (q, none) (runFile overrides action · q) ∧
          ∀ l ∈ rest.head?, (runFile overrides action l q).2.isSome = true
  | [], p => ⟨[], [], p, rfl, rfl, rfl, by simp⟩
  | l :: ls, p => by
    rcases hrun : runFile overrides action l p with ⟨p', _ | stop⟩
    · obtain ⟨done, rest, q, hls, hdone, hrest, hstop⟩ := exists_runFiles_eq overrides action ls p'
      refine ⟨l :: done, rest, q, by rw [hls]; rfl, ?_, ?_, hstop⟩
      · rw [runFiles_cons_of_passed hrun, hdone]
      · rw [runFiles_cons_of_passed hrun, hrest]
    · refine ⟨[], l :: ls, p, rfl, rfl, ?_, ?_⟩
      · rw [runFiles_cons_of_stopped hrun]
        exact hrun.symm
      · simp [hrun]

theorem runFiles_concat : ∀ {ls : List Location} {p : Progress} {l : Location},
    runFiles overrides action (ls ++ [l]) p = (q, none) →
      ∃ r, runFiles overrides action ls p = (r, none) ∧ runFile overrides action l r = (q, none)
  | [], p, l, h => by
    rcases hrun : runFile overrides action l p with ⟨p', _ | stop⟩
    · rw [List.nil_append, runFiles_cons_of_passed hrun] at h
      exact ⟨p, rfl, hrun.trans h⟩
    · rw [List.nil_append, runFiles_cons_of_stopped hrun] at h
      exact absurd h (by simp)
  | k :: ls, p, l, h => by
    rcases hrun : runFile overrides action k p with ⟨p', _ | stop⟩
    · rw [List.cons_append, runFiles_cons_of_passed hrun] at h
      obtain ⟨r, hr, hl⟩ := runFiles_concat h
      exact ⟨r, by rw [runFiles_cons_of_passed hrun, hr], hl⟩
    · rw [List.cons_append, runFiles_cons_of_stopped hrun] at h
      exact absurd h (by simp)

end

/-- What replacing files does to the file system, one after another from `p` on to `q`. -/
structure Passed (overrides : List (Text × Value)) (done : List Location) (p q : Progress) : Prop where
  /-- Nothing appears, nothing is gone, and regular files stay regular files. -/
  shape : p.world.store.SameShape q.world.store
  /-- What changes is one of the files, and holds what the file as it stood then was formatted to. -/
  changed : ∀ m, q.world.store.get? m ≠ p.world.store.get? m →
    ∃ before after r f f', done = before ++ m :: after ∧
      runFiles overrides .replace before p = (r, none) ∧ q.world.store.get? m = some (.file f') ∧
        Rewritten overrides r.world m f f'
  modes : ∀ m f f', p.world.store.get? m = some (.file f) → q.world.store.get? m = some (.file f') →
    KeepsMode f.mode f'.mode
  /-- Each of the files that is given once holds what it was formatted to. -/
  updated : done.Nodup → ∀ m ∈ done, ∃ before after r f f', done = before ++ m :: after ∧
    runFiles overrides .replace before p = (r, none) ∧ p.world.store.get? m = some (.file f) ∧
      q.world.store.get? m = some (.file f') ∧ Updated overrides r.world m f f'

theorem Passed.get?_eq {overrides : List (Text × Value)} {done : List Location} {p q : Progress}
    (h : Passed overrides done p q) {m : Location} (hm : m ∉ done) :
    q.world.store.get? m = p.world.store.get? m := by
  by_contra hne
  obtain ⟨before, after, r, f, f', hdone, -⟩ := h.changed m hne
  exact hm (by simp [hdone])

theorem passed_nil (overrides : List (Text × Value)) (p : Progress) : Passed overrides [] p p where
  shape := .refl _
  changed m h := absurd rfl h
  modes m f f' hf hf' := by
    cases hf.symm.trans hf'
    exact keepsMode_iff.mpr (Or.inl rfl)
  updated := by simp

/-- One more file is replaced. -/
theorem Passed.concat {overrides : List (Text × Value)} {done : List Location} {p q q' : Progress}
    (h : Passed overrides done p q) (hrun : runFiles overrides .replace done p = (q, none)) {l : Location}
    (hstep : Step overrides l q (q', none)) : Passed overrides (done ++ [l]) p q' := by
  cases hstep with
  | @passed _ f f' hf hf' hupdated hothers =>
    have hcases : ∀ m, q'.world.store.get? m = q.world.store.get? m ∨ m = l := fun m =>
      (eq_or_ne m l).symm.imp_left (hothers m)
    have hmode : ∀ {mode}, KeepsMode mode f.mode → KeepsMode mode f'.mode := by
      intro mode hkeeps
      cases hupdated with
      | kept => exact hkeeps
      | rewritten hrewritten => exact hrewritten.mode ▸ hkeeps.replacedMode _
    refine ⟨fun m => ?_, fun m hne => ?_, fun m g g' hg hg' => ?_, fun hnodup m hm => ?_⟩
    · rcases hcases m with hsame | rfl
      · rw [hsame]
        exact h.shape m
      · rcases h.shape m with hsame | ⟨g, g', hg, -⟩
        · exact Or.inr ⟨f, f', hsame ▸ hf, hf'⟩
        · exact Or.inr ⟨g, f', hg, hf'⟩
    · by_cases hlast : q'.world.store.get? m = q.world.store.get? m
      · obtain ⟨before, after, r, g, g', hdone, hbefore, hg', hrewritten⟩ := h.changed m (hlast ▸ hne)
        exact ⟨before, after ++ [l], r, g, g', by simp [hdone], hbefore, hlast ▸ hg', hrewritten⟩
      · obtain rfl : m = l := (hcases m).resolve_left hlast
        cases hupdated with
        | kept => exact absurd (hf'.trans hf.symm) hlast
        | rewritten hrewritten => exact ⟨done, [], q, f, f', rfl, hrun, hf', hrewritten⟩
    · rcases hcases m with hsame | rfl
      · exact h.modes m g g' hg (hsame ▸ hg')
      · cases hf'.symm.trans hg'
        exact hmode (h.modes m g f hg hf)
    · obtain ⟨hdone, -, hne⟩ := List.nodup_append.mp hnodup
      have hl : l ∉ done := fun hl => hne l hl l List.mem_cons_self rfl
      rcases List.mem_append.mp hm with hm | hm
      · obtain ⟨before, after, r, g, g', hsplit, hbefore, hg, hg', hgg'⟩ := h.updated hdone m hm
        have hm := hothers m (hne m hm l List.mem_cons_self)
        exact ⟨before, after ++ [l], r, g, g', by simp [hsplit], hbefore, hg, hm ▸ hg', hgg'⟩
      · obtain rfl := List.mem_singleton.mp hm
        exact ⟨done, [], q, f, f', rfl, hrun, h.get?_eq hl ▸ hf, hf', hupdated⟩

/-- A run that nothing stops updates one file after another. -/
theorem passed_runFiles {overrides : List (Text × Value)} {p : Progress} (done : List Location)
    (hpages : ∀ l ∈ done, p.world.store.Page l) : ∀ {q : Progress},
    runFiles overrides .replace done p = (q, none) → Passed overrides done p q := by
  induction done using List.reverseRecOn with
  | nil =>
    intro q h
    cases h
    exact passed_nil overrides p
  | append_singleton done l ih =>
    intro q h
    obtain ⟨r, hr, hl⟩ := runFiles_concat h
    have hpassed := ih (fun m hm => hpages m (List.mem_append_left _ hm)) hr
    have hstep := step_runFile overrides (hpassed.shape.page (hpages l (by simp)))
    rw [hl] at hstep
    exact hpassed.concat hr hstep

/-! ### Runs that replace nothing -/

theorem store_runFile {action : Action} (haction : action ≠ .replace) (overrides : List (Text × Value))
    (l : Location) (p : Progress) : (runFile overrides action l p).1.world.store = p.world.store := by
  cases hformat : formatAt overrides p.world l with
  | error stop => rw [runFile_of_error hformat]
  | ok found =>
    rw [runFile_of_ok hformat]
    cases action with
    | replace => exact absurd rfl haction
    | print => simp only [deliver]; split <;> rfl
    | check => simp only [deliver]; split <;> rfl

theorem store_runFiles {action : Action} (haction : action ≠ .replace) (overrides : List (Text × Value)) :
    ∀ (ls : List Location) (p : Progress), (runFiles overrides action ls p).1.world.store = p.world.store
  | [], _ => rfl
  | l :: ls, p => by
    have hstore := store_runFile haction overrides l p
    rcases hrun : runFile overrides action l p with ⟨p', _ | stop⟩ <;> rw [hrun] at hstore
    · rw [runFiles_cons_of_passed hrun, store_runFiles haction overrides ls p', hstore]
    · rw [runFiles_cons_of_stopped hrun, hstore]

theorem perform_of_pages {r : Request} {w : World} {action : Action} {ls : List Location}
    (haction : r.action = .ok action) (hpages : resolvePages w r.files = .ok ls) :
    perform r w = runFiles r.overrides action ls { world := w } := by
  simp only [perform, haction, hpages]

/-- Nothing changes unless files are to be replaced and all of them are there. -/
theorem store_perform {r : Request} {w : World}
    (h : ∀ ls, r.action = .ok .replace → resolvePages w r.files ≠ .ok ls) :
    (perform r w).1.world.store = w.store := by
  cases haction : r.action with
  | error e => simp only [perform, haction]
  | ok action =>
    cases hpages : resolvePages w r.files with
    | error e => cases e <;> simp only [perform, haction, hpages]
    | ok ls =>
      rw [perform_of_pages haction hpages]
      exact store_runFiles (fun hreplace => h ls (hreplace ▸ haction) hpages) _ _ _

theorem world_finish (front : FrontEnd) (r : Request) (w : World) :
    (finish front r w).world = (perform r w).1.world := by
  unfold finish
  rcases perform r w with ⟨p, _ | c | c⟩ <;> rfl

/-! ### Whole runs -/

theorem Request.action_eq_replace_iff {r : Request} :
    r.action = .ok .replace ↔ r.inPlace = true ∧ r.check = false := by
  unfold Request.action
  cases r.inPlace <;> cases r.check <;> simp

/-- The front end makes a request of the arguments, and the pages of it are at the places `ls`. -/
structure Names (front : FrontEnd) (args : List Text) (w : World) (r : Request) (ls : List Location) :
    Prop where
  read : front.read args w = .ok r
  pages : resolvePages w r.files = .ok ls

/-- The arguments ask for the pages at the places `ls` to be replaced, and not only to be checked. -/
structure Replaces (front : FrontEnd) (args : List Text) (w : World) (r : Request) (ls : List Location) : Prop
    extends Names front args w r ls where
  inPlace : r.inPlace = true
  not_check : r.check = false

theorem run_of_read {front : FrontEnd} {args : List Text} {w : World} {r : Request}
    (h : front.read args w = .ok r) : run front args w = finish front r w := by
  simp only [run, h]

section

variable {front : FrontEnd} {args : List Text} {w : World} {r : Request} {ls : List Location}

theorem Names.perform_eq (h : Names front args w r ls) {action : Action} (haction : r.action = .ok action) :
    perform r w = runFiles r.overrides action ls { world := w } :=
  perform_of_pages haction h.pages

theorem Replaces.action_eq (h : Replaces front args w r ls) : r.action = .ok .replace :=
  Request.action_eq_replace_iff.mpr ⟨h.inPlace, h.not_check⟩

/-- Nothing changes in a run that replaces no files. -/
theorem store_run (h : ¬∃ r ls, Replaces front args w r ls) : (run front args w).world.store = w.store := by
  cases hread : front.read args w with
  | error ending => simp only [run, hread]
  | ok r =>
    rw [run_of_read hread, world_finish, store_perform]
    intro ls haction hpages
    obtain ⟨hinPlace, hcheck⟩ := Request.action_eq_replace_iff.mp haction
    exact h ⟨r, ls, ⟨hread, hpages⟩, hinPlace, hcheck⟩

/-- Without a check, a run that nothing stops is a success. -/
theorem status_finish (hcheck : r.check = false) (h : (perform r w).2 = none) :
    (finish front r w).status = 0 ∧ (finish front r w).crash = none := by
  unfold finish
  generalize perform r w = out at h
  obtain ⟨p, stop⟩ := out
  obtain rfl : stop = none := h
  simp [hcheck]

end

theorem exists_of_mem_mapM {α β ε : Type} {f : α → Except ε β} : ∀ {as : List α} {bs : List β},
    as.mapM f = .ok bs → ∀ b ∈ bs, ∃ a ∈ as, f a = .ok b
  | [], bs, h => by
    rw [List.mapM_nil] at h
    cases h
    simp
  | a :: as, bs, h => by
    rw [List.mapM_cons] at h
    obtain ⟨b, hb, h⟩ := bind_eq_ok.mp h
    obtain ⟨bs', hbs', h⟩ := bind_eq_ok.mp h
    cases h
    intro c hc
    rcases List.mem_cons.mp hc with rfl | hc
    · exact ⟨a, List.mem_cons_self, hb⟩
    · obtain ⟨a', ha', hfa'⟩ := exists_of_mem_mapM hbs' c hc
      exact ⟨a', List.mem_cons_of_mem _ ha', hfa'⟩

theorem page_of_resolvePages {w : World} (hcwd : w.store.Direct w.cwd) {files : List Text}
    {ls : List Location} (h : resolvePages w files = .ok ls) : ∀ l ∈ ls, w.store.Page l := by
  intro l hl
  obtain ⟨raw, -, hraw⟩ := exists_of_mem_mapM h l hl
  exact page_of_resolvePage hcwd hraw

/-- What a run that replaces the pages at the places `ls` does: it gets through the files `done`, and the
    first of the `rest`, if any, stops it. -/
structure Effects (overrides : List (Text × Value)) (ls done rest : List Location) (w : World) (q : Progress)
    (out : Run) : Prop where
  split : ls = done ++ rest
  gets_through : runFiles overrides .replace done { world := w } = (q, none)
  passed : Passed overrides done { world := w } q
  store : ∀ m, out.world.store.get? m = q.world.store.get? m
  stops : ∀ l ∈ rest.head?, (runFile overrides .replace l q).2.isSome = true
  succeeds : rest = [] → out.status = 0 ∧ out.crash = none
  rest_kept : ls.Nodup → ∀ m ∈ rest, out.world.store.get? m = w.store.get? m

/-- Whatever the front end makes of the arguments, no entry changes unless files are asked to be replaced
    and each of them is a page. Then what changes are regular files among those, each to the text that it
    was formatted to; the file that stops the run and those after it stay as they were, those before it
    hold what they were formatted to, and nothing is left of temporary files. -/
theorem run_effects (front : FrontEnd) (args : List Text) (w : World) (hcwd : w.store.Direct w.cwd) :
    ((¬∃ r ls, Replaces front args w r ls) →
        ∀ m, (run front args w).world.store.get? m = w.store.get? m) ∧
      ∀ r ls, Replaces front args w r ls →
        ∃ done rest q, Effects r.overrides ls done rest w q (run front args w) := by
  refine ⟨fun hnone m => by rw [store_run hnone], fun r ls hreplaces => ?_⟩
  have hrun := run_of_read hreplaces.read
  have hperform := hreplaces.perform_eq hreplaces.action_eq
  have hpages := page_of_resolvePages hcwd hreplaces.pages
  obtain ⟨done, rest, q, rfl, hdone, hall, hstops⟩ :=
    exists_runFiles_eq r.overrides .replace ls { world := w }
  have hpassed := passed_runFiles (p := { world := w }) done
    (fun l hl => hpages l (List.mem_append_left rest hl)) hdone
  have hstore : ∀ m, (run front args w).world.store.get? m = q.world.store.get? m := by
    intro m
    rw [hrun, world_finish, hperform, hall]
    cases rest with
    | nil => rfl
    | cons l rest =>
      have hstep := step_runFile r.overrides (hpassed.shape.page (hpages l (by simp)))
      have hstop := hstops l rfl
      rw [List.head?_cons, Option.elim_some]
      generalize runFile r.overrides .replace l q = out at hstep hstop ⊢
      cases hstep with
      | stopped hsame => exact hsame m
      | passed => exact absurd hstop (by simp)
  refine ⟨done, rest, q, rfl, hdone, hpassed, hstore, hstops, ?_, fun hnodup m hm => ?_⟩
  · rintro rfl
    rw [hrun]
    exact status_finish hreplaces.not_check (by rw [hperform, hall]; rfl)
  · rw [hstore, hpassed.get?_eq fun hdone => (List.nodup_append.mp hnodup).2.2 m hdone m hm rfl]

/-- One page is replaced before another, which is no text, stops the run. -/
theorem run_effects_stopped :
    let front := frontEnd "jspfmt"
    let file (content : Bytes) : Entry := .file { number := 1, mode := 0o644, changed := 0, content }
    let w : World :=
      { store :=
          { entries := [(["site".toList], .directory),
              (["site".toList, "a.jsp".toList], file (Utf8.encode "<%a();%>\n".toList)),
              (["site".toList, "b.jsp".toList], file [0xff])] }
        cwd := ["site".toList]
        homes := { own := "/".toList }
        library := ⟨fun _ => .ok, fun _ _ _ => .error .malformed⟩
        programs := { replies := [], fallback := fun _ => .notFound } }
    let args := ["--in-place", "--markup-formatter=none", "--code-format-mode=indent-only", "a.jsp",
      "b.jsp"].map String.toList
    w.store.Direct w.cwd ∧
      ∃ r ls done rest q, Replaces front args w r ls ∧
        Effects r.overrides ls done rest w q (run front args w) ∧ rest ≠ [] ∧
          ∃ m, (run front args w).world.store.get? m ≠ w.store.get? m := by
  intro front file w args
  have hcwd : w.store.Direct w.cwd := by
    refine ⟨fun n hn => ?_, fun n target => ?_⟩
    · obtain rfl := List.mem_singleton.mp hn
      exact ⟨by decide, by decide, by decide, by decide⟩
    · have hdirectory : w.store.get? (w.cwd.take n) = some .directory := by
        cases n with
        | zero => rfl
        | succ n => rw [List.take_succ_cons, List.take_nil]; decide +kernel
      simp [hdirectory]
  obtain ⟨hchanged, hstatus⟩ : (run front args w).world.store.get? ["site".toList, "a.jsp".toList] ≠
      w.store.get? ["site".toList, "a.jsp".toList] ∧ (run front args w).status = 1 := by decide +kernel
  obtain ⟨hunchanged, heffects⟩ := run_effects front args w hcwd
  obtain ⟨r, ls, hreplaces⟩ : ∃ r ls, Replaces front args w r ls :=
    by_contra fun hnone => hchanged (hunchanged hnone _)
  obtain ⟨done, rest, q, h⟩ := heffects r ls hreplaces
  refine ⟨hcwd, r, ls, done, rest, q, hreplaces, h, fun hrest => ?_, _, hchanged⟩
  rw [(h.succeeds hrest).1] at hstatus
  exact absurd hstatus (by decide)

/-- A page that may run as its owner, which it may not any more after it was replaced. -/
theorem run_loses_mode :
    let file (mode : Nat) (text : String) : Entry :=
      .file { number := 1, mode, changed := 0, content := Utf8.encode text.toList }
    let w : World :=
      { store := { entries := [(["a.jsp".toList], file 0o4755 "<%a();%>\n")] }
        homes := { own := "/".toList }
        library := ⟨fun _ => .ok, fun _ _ _ => .error .malformed⟩
        programs := { replies := [], fallback := fun _ => .notFound } }
    let args := ["--in-place", "--markup-formatter=none", "--code-format-mode=indent-only", "a.jsp"].map
      String.toList
    let out := run (frontEnd "jspfmt") args w
    out.status = 0 ∧ out.world.store.get? ["a.jsp".toList] = some (file 0o755 "<%\n  a();\n%>\n") := by
  decide +kernel

end JspLayout.CommandLine
