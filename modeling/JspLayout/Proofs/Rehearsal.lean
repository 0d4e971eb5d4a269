import JspLayout.Proofs.Effects

/-! Checking files is a rehearsal of replacing them.

    The same request is made twice, once to check the files and once to replace them. The runs differ
    in the files that were replaced so far, and none of those is looked at again: each file is given
    once, and settings are read from other files. Main statement: both runs find the same files to change,
    the second leaves in each of them what the first computed, and the same file stops both
    (`check_agrees_with_replace`). -/

namespace JspLayout.CommandLine

/-! ### Two command lines -/

/-- The request to replace the files that a request names. -/
def Request.replacing (r : Request) : Request := { r with check := false, inPlace := true }

/-- Two lists of arguments that a front end refuses alike, or that ask for the same files to be checked and
    to be replaced, with the same options otherwise. -/
inductive Counterparts (front : FrontEnd) (w : World) (args args' : List Text) : Prop
  | refused {ending : Ending} (h : front.read args w = .error ending)
      (h' : front.read args' w = .error ending)
  | read {r : Request} (h : front.read args w = .ok r) (h' : front.read args' w = .ok r.replacing)
      (hcheck : r.check = true) (hinPlace : r.inPlace = false)

/-! ### Formatting after other files were replaced -/

/-- Formatting a file comes to the same after other files were replaced, unless its settings are read
    from them. -/
theorem formatAt_congr (overrides : List (Text × Value)) {w : World} {s' : Store} {l : Location}
    (hshape : w.store.SameShape s') (hl : w.store.Page l) (hfile : s'.get? l = w.store.get? l)
    (hsettings : ∀ c ∈ candidates l.dropLast, ∀ m e,
      w.store.entryAt [] true (settingsPath c.1 c.2) = .ok (m, e) → s'.get? m = w.store.get? m) :
    formatAt overrides { w with store := s' } l = formatAt overrides w l := by
  obtain ⟨f, hf⟩ := hl.file
  have hentry : s'.entryAt w.cwd false (Path.ofLocation l).text =
      w.store.entryAt w.cwd false (Path.ofLocation l).text := by
    rw [hl.entryAt_eq hf, (hshape.page hl).entryAt_eq (hfile.trans hf)]
  have hformat : ∀ settings, formatFile { w with store := s' } (.ofLocation l) settings =
      formatFile w (.ofLocation l) settings := by
    intro settings
    simp only [formatFile, readSource, inspect, hentry]
  simp only [formatAt, hshape.buildSettings_eq hl hsettings (w.denials 0) overrides, hformat]

/-- The line that names a file which would be reformatted. -/
def report (l : Location) : Text :=
  ("would reformat " ++ String.ofList (Path.ofLocation l).text ++ "\n").toList

/-- No operation on pages is refused, and one on a settings file always or never. -/
structure Undisturbed (w : World) : Prop where
  constant : ∀ n, w.denials n = w.denials 0
  granted : (w.denials 0).GrantPages

theorem Undisturbed.congr {w w' : World} (h : Undisturbed w) (hdenials : w'.denials = w.denials) :
    Undisturbed w' where
  constant n := by rw [hdenials]; exact h.constant n
  granted := by rw [hdenials]; exact h.granted

/-- Reading and writing leave such a world as it is. -/
theorem Undisturbed.next_eq {w : World} (h : Undisturbed w) : w.next = w := by
  have hdenials : (fun n => w.denials (n + 1)) = w.denials :=
    funext fun n => (h.constant (n + 1)).trans (h.constant n).symm
  rw [World.next, hdenials]

/-- How far a run has come after a file was found to change. -/
def Progress.note (p : Progress) (l : Location) : Progress := { p with changed := p.changed ++ [l] }

section

variable {overrides : List (Text × Value)} {l : Location} {p : Progress} {source : Source}
  {formatted : Formatted Programs} (h : formatAt overrides p.world l = .ok (source, formatted))

include h

theorem runFile_check_of_ne (htext : formatted.text ≠ source.text) :
    runFile overrides .check l p =
      ({ (p.next formatted).note l with output := p.output ++ report l }, none) := by
  rw [runFile_of_ok h]
  simp only [deliver, bne_iff_ne.mpr htext, if_true]
  rfl

theorem runFile_replace_of_ne (hworld : Undisturbed p.world) (hl : p.world.store.Page l)
    (hfits : tempFits l = true) (htext : formatted.text ≠ source.text) :
    ∃ notes store f, runFile overrides .replace l p =
        ({ (p.next formatted).note l with
            world := { p.world with store, programs := formatted.formatter }, notes }, none) ∧
      store.get? l = some (.file f) ∧ f.content = Utf8.encode formatted.text ∧
        f.number = p.world.store.nextNumber ∧ store.nextNumber = p.world.store.nextNumber + 1 ∧
          ∀ m, m ≠ l → store.get? m = p.world.store.get? m := by
  obtain ⟨f, hf⟩ := hl.file
  obtain ⟨hpath, hsnapshot, -⟩ := formats_of_formatAt hl hf h
  have hnext : (p.next formatted).world = { p.world with programs := formatted.formatter } := by
    rw [Progress.next, hworld.next_eq]
  have hafter : ({ p.world with programs := formatted.formatter } : World).next =
      { p.world with programs := formatted.formatter } := by
    refine Undisturbed.next_eq (hworld.congr ?_)
    rfl
  have hresult := writeSource_ok hl hpath hf hsnapshot hfits p.world.cwd hworld.granted formatted.text
  have houtcome := writeOutcome_writeSource hl hpath p.world.cwd (p.world.denials 0) formatted.text
  rw [runFile_of_ok h]
  simp only [deliver, bne_iff_ne.mpr htext, Bool.not_true, Bool.false_eq_true, if_false, if_true, hnext,
    hafter]
  generalize writeSource p.world.store p.world.cwd (p.world.denials 0) source formatted.text = written
    at hresult houtcome
  cases houtcome with
  | failed => exact absurd hresult (by simp)
  | replaced hfile hcontent _ hnumber hnext hothers =>
    exact ⟨_, _, _, rfl, hfile, hcontent, hnumber, hnext, hothers⟩

end

/-! ### Two runs side by side -/

/-- No settings for the pages are read from one of the pages. -/
def SettingsApart (s : Store) (ls : List Location) : Prop :=
  ∀ l ∈ ls, ∀ c ∈ candidates l.dropLast, ∀ m ∈ ls, s.lookup [] true (settingsPath c.1 c.2) ≠ .ok m

/-- What the files must be like for one run to be a rehearsal of the other. -/
structure Rehearsable (s : Store) (ls : List Location) : Prop where
  pages : ∀ l ∈ ls, s.Page l
  nodup : ls.Nodup
  fits : ∀ l ∈ ls, tempFits l = true
  apart : SettingsApart s ls

theorem Rehearsable.subset {s : Store} {ls ms : List Location} (h : Rehearsable s ls)
    (hms : List.Sublist ms ls) : Rehearsable s ms where
  pages l hl := h.pages l (hms.subset hl)
  nodup := h.nodup.sublist hms
  fits l hl := h.fits l (hms.subset hl)
  apart l hl c hc m hm := h.apart l (hms.subset hl) c hc m (hms.subset hm)

theorem Rehearsable.not_mem {s : Store} {done : List Location} {l : Location}
    (h : Rehearsable s (done ++ [l])) : l ∉ done := fun hl =>
  (List.nodup_append.mp h.nodup).2.2 l hl l List.mem_cons_self rfl

/-- The file at a place holds the text that a check, having got through the files before it, formatted
    it to. -/
def Rehearsed (overrides : List (Text × Value)) (w : World) (done : List Location) (s : Store)
    (m : Location) : Prop :=
  ∃ before after p f f' source text, done = before ++ m :: after ∧
    runFiles overrides .check before { world := w } = (p, none) ∧
      Formats overrides p.world m f source text ∧ text ≠ source ∧
        s.get? m = some (.file f') ∧ f'.content = Utf8.encode text ∧ w.store.nextNumber ≤ f'.number

theorem Rehearsed.mem {overrides : List (Text × Value)} {w : World} {done : List Location} {s : Store}
    {m : Location} (h : Rehearsed overrides w done s m) : m ∈ done := by
  obtain ⟨before, after, p, f, f', source, text, rfl, -⟩ := h
  simp

theorem Rehearsed.concat {overrides : List (Text × Value)} {w : World} {done : List Location} {s s' : Store}
    {m : Location} (h : Rehearsed overrides w done s m) (hm : s'.get? m = s.get? m) (l : Location) :
    Rehearsed overrides w (done ++ [l]) s' m := by
  obtain ⟨before, after, p, f, f', source, text, rfl, hbefore, hformats, hne, hf', hcontent, hnumber⟩ := h
  exact ⟨before, after ++ [l], p, f, f', source, text, by simp, hbefore, hformats, hne, hm.trans hf', hcontent,
    hnumber⟩

/-- A check `c` and a replacement `d` of the same files, having got through the files `done`. -/
structure Twins (overrides : List (Text × Value)) (w : World) (done : List Location) (c d : Progress) :
    Prop where
  store : c.world.store = w.store
  undisturbed : Undisturbed c.world
  world : d.world = { c.world with store := d.world.store }
  changed : d.changed = c.changed
  output : c.output = c.changed.flatMap report
  shape : w.store.SameShape d.world.store
  next : w.store.nextNumber ≤ d.world.store.nextNumber
  kept : ∀ m, m ∉ c.changed → d.world.store.get? m = w.store.get? m
  rewritten : ∀ m ∈ c.changed, Rehearsed overrides w done d.world.store m

theorem twins_nil (overrides : List (Text × Value)) {w : World} (hworld : Undisturbed w) :
    Twins overrides w [] { world := w } { world := w } where
  store := rfl
  undisturbed := hworld
  world := rfl
  changed := rfl
  output := rfl
  shape := .refl _
  next := Nat.le_refl _
  kept _ _ := rfl
  rewritten := by simp

namespace Twins

variable {overrides : List (Text × Value)} {w : World} {done : List Location} {c d : Progress}
  (h : Twins overrides w done c d)

include h

theorem get?_eq {m : Location} (hm : m ∉ done) : d.world.store.get? m = w.store.get? m :=
  h.kept m fun hchanged => hm (h.rewritten m hchanged).mem

/-- The next file is formatted to the same in both. -/
theorem formatAt_eq {l : Location} (hfiles : Rehearsable w.store (done ++ [l])) :
    formatAt overrides d.world l = formatAt overrides c.world l := by
  have hl : l ∈ done ++ [l] := by simp
  rw [h.world]
  refine formatAt_congr overrides (h.store ▸ h.shape) (h.store ▸ hfiles.pages l hl) ?_ fun x hx m e hentry => ?_
  · rw [h.store, h.get?_eq hfiles.not_mem]
  · rw [h.store] at hentry ⊢
    exact h.get?_eq fun hm =>
      hfiles.apart l hl x hx m (List.mem_append_left _ hm) (Store.entryAt_eq_ok.mp hentry).1

/-- A file that is formatted already changes nothing in either. -/
theorem concat_same (formatted : Formatted Programs) (notes : List Note) (l : Location) :
    Twins overrides w (done ++ [l]) (c.next formatted) { d.next formatted with notes } where
  store := h.store
  undisturbed := h.undisturbed.congr (by rw [Progress.next, h.undisturbed.next_eq])
  world := by
    simp only [Progress.next, World.next]
    rw [h.world]
  changed := h.changed
  output := h.output
  shape := h.shape
  next := h.next
  kept := h.kept
  rewritten m hm := (h.rewritten m hm).concat rfl l

/-- A file that changes is reported by the one and replaced by the other. -/
theorem concat_ne (hrun : runFiles overrides .check done { world := w } = (c, none)) {l : Location}
    (hnot : l ∉ done) {f f' : File} {source : Text} {formatted : Formatted Programs}
    (hformats : Formats overrides c.world l f source formatted.text) (hne : formatted.text ≠ source)
    {store : Store} (hf' : store.get? l = some (.file f')) (hcontent : f'.content = Utf8.encode formatted.text)
    (hnumber : f'.number = d.world.store.nextNumber) (hnext : store.nextNumber = d.world.store.nextNumber + 1)
    (hothers : ∀ m, m ≠ l → store.get? m = d.world.store.get? m) (notes : List Note) :
    Twins overrides w (done ++ [l])
      { (c.next formatted).note l with output := c.output ++ report l }
      { (d.next formatted).note l with
        world := { d.world with store, programs := formatted.formatter }, notes } where
  store := h.store
  undisturbed := h.undisturbed.congr (by rw [Progress.note, Progress.next, h.undisturbed.next_eq])
  world := by
    simp only [Progress.note, Progress.next, h.undisturbed.next_eq]
    rw [h.world]
  changed := by simp only [Progress.note, Progress.next, h.changed]
  output := by simp only [Progress.note, Progress.next, List.flatMap_append, List.flatMap_singleton, h.output]
  shape m := by
    by_cases hm : m = l
    · subst hm
      exact Or.inr ⟨f, f', h.store ▸ hformats.file, hf'⟩
    · change store.get? m = _ ∨ _
      rw [hothers m hm]
      exact h.shape m
  next := by
    have := h.next
    change _ ≤ store.nextNumber
    omega
  kept m hm := by
    simp only [Progress.note, Progress.next, List.mem_append, List.mem_singleton, not_or] at hm
    exact (hothers m hm.2).trans (h.kept m hm.1)
  rewritten m hm := by
    rcases List.mem_append.mp hm with hm | hm
    · have hrewritten := h.rewritten m hm
      exact hrewritten.concat (hothers m fun heq => hnot (heq ▸ hrewritten.mem)) l
    · obtain rfl := List.mem_singleton.mp hm
      exact ⟨done, [], c, f, f', source, _, rfl, hrun, hformats, hne, hf', hcontent, hnumber ▸ h.next⟩

/-- Where a check gets through a file, so does the replacement. -/
theorem concat (hrun : runFiles overrides .check done { world := w } = (c, none)) {l : Location}
    (hfiles : Rehearsable w.store (done ++ [l])) {c' : Progress}
    (hcheck : runFile overrides .check l c = (c', none)) :
    ∃ d', runFile overrides .replace l d = (d', none) ∧ Twins overrides w (done ++ [l]) c' d' := by
  have hformat := h.formatAt_eq hfiles
  have hl : w.store.Page l := hfiles.pages l (by simp)
  cases hc : formatAt overrides c.world l with
  | error stop =>
    rw [runFile_of_error hc] at hcheck
    exact absurd hcheck (by simp)
  | ok found =>
    obtain ⟨source, formatted⟩ := found
    by_cases htext : formatted.text = source.text
    · obtain ⟨notes, hreplace⟩ := (runFile_of_same (hformat.trans hc) htext).2
      rw [(runFile_of_same hc htext).1] at hcheck
      cases hcheck
      exact ⟨_, hreplace, h.concat_same formatted notes l⟩
    · obtain ⟨f, hf⟩ := hl.file
      obtain ⟨-, -, hformats⟩ := formats_of_formatAt (w := c.world) (h.store ▸ hl) (h.store ▸ hf) hc
      obtain ⟨notes, store, f', hreplace, hf', hcontent, hnumber, hnext, hothers⟩ :=
        runFile_replace_of_ne (hformat.trans hc) (h.undisturbed.congr (by rw [h.world])) (h.shape.page hl)
          (hfiles.fits l (by simp)) htext
      rw [runFile_check_of_ne hc htext] at hcheck
      cases hcheck
      exact ⟨_, hreplace,
        h.concat_ne hrun hfiles.not_mem hformats htext hf' hcontent hnumber hnext hothers notes⟩

end Twins

theorem runFiles_append_of_passed {overrides : List (Text × Value)} {action : Action} {q : Progress}
    (ms : List Location) : ∀ {ls : List Location} {p : Progress},
    runFiles overrides action ls p = (q, none) →
      runFiles overrides action (ls ++ ms) p = runFiles overrides action ms q
  | [], p, h => by
    cases h
    rfl
  | l :: ls, p, h => by
    rcases hrun : runFile overrides action l p with ⟨p', _ | stop⟩
    · rw [runFiles_cons_of_passed hrun] at h
      rw [List.cons_append, runFiles_cons_of_passed hrun, runFiles_append_of_passed ms h]
    · rw [runFiles_cons_of_stopped hrun] at h
      exact absurd h (by simp)

/-- Where a check gets through the files, so does the replacement. -/
theorem twins_runFiles {overrides : List (Text × Value)} {w : World} (hworld : Undisturbed w)
    (done : List Location) (hfiles : Rehearsable w.store done) : ∀ {c : Progress},
    runFiles overrides .check done { world := w } = (c, none) →
      ∃ d, runFiles overrides .replace done { world := w } = (d, none) ∧ Twins overrides w done c d := by
  induction done using List.reverseRecOn with
  | nil =>
    intro c h
    cases h
    exact ⟨_, rfl, twins_nil overrides hworld⟩
  | append_singleton done l ih =>
    intro c' h
    obtain ⟨c, hc, hlast⟩ := runFiles_concat h
    obtain ⟨d, hd, htwins⟩ := ih (hfiles.subset (List.sublist_append_left done [l])) hc
    obtain ⟨d', hd', htwins'⟩ := htwins.concat hc hfiles hlast
    refine ⟨d', ?_, htwins'⟩
    rw [runFiles_append_of_passed [l] hd, runFiles_cons_of_passed hd']
    rfl

/-! ### Whole runs -/

/-- What a stop adds to the error output. -/
def stopText (front : FrontEnd) : Option Stop → Text
  | some (.complaint c) => (front.report c).2
  | some (.crash _) | none => []

/-- The status of a run that was stopped. -/
def Stop.status (front : FrontEnd) : Stop → Nat
  | .complaint c => (front.report c).1
  | .crash _ => 1

/-- What crashed a run that was stopped. -/
def Stop.crash? : Stop → Option Crash
  | .crash c => some c
  | .complaint _ => none

/-- What a run shows that went as far as `p`. -/
theorem finish_eq (front : FrontEnd) (r : Request) {w : World} {p : Progress} {stop? : Option Stop}
    (h : perform r w = (p, stop?)) :
    finish front r w =
      { status := stop?.elim (if r.check = true ∧ p.changed ≠ [] then 1 else 0) (Stop.status front)
        output := p.output
        errors := notesText r.threshold p.notes ++ stopText front stop?
        crash := stop?.bind Stop.crash?
        world := p.world } := by
  unfold finish
  rw [h]
  rcases stop? with _ | c | c
  · simp [stopText]
  · rfl
  · simp [stopText, Stop.status, Stop.crash?]

/-- Every number of a file has been given out. -/
def Numbered (s : Store) : Prop := ∀ l f, s.get? l = some (.file f) → f.number < s.nextNumber

/-- A check and a replacement of the files at the places `ls`: both get through the files `done`, of which
    those in `changed` are not formatted yet, and the first of the `rest`, if any, stops both. -/
structure Rehearsal (front : FrontEnd) (overrides : List (Text × Value)) (ls done rest changed : List Location)
    (stop? : Option Stop) (w : World) (checked replaced : Run) : Prop where
  split : ls = done ++ rest
  stops : stop? = none ↔ rest = []
  /-- Each run by itself gets as far as that. -/
  both : ∀ action, action = .check ∨ action = .replace → ∃ p,
    runFiles overrides action done { world := w } = (p, none) ∧
      ∀ l ∈ rest.head?, (runFile overrides action l p).2 = stop?
  reported : checked.output = changed.flatMap report
  kept : checked.world.store = w.store
  changed_iff : ∀ m, m ∈ changed ↔ replaced.world.store.get? m ≠ w.store.get? m
  rewritten : ∀ m ∈ changed, Rehearsed overrides w done replaced.world.store m
  errors : ∃ notes notes', checked.errors = notes ++ stopText front stop? ∧
    replaced.errors = notes' ++ stopText front stop?
  crash : checked.crash = stop?.bind Stop.crash? ∧ replaced.crash = stop?.bind Stop.crash?
  /-- Without an error a check says whether anything is left to do. -/
  status : stop? = none → (checked.status = 1 ↔ changed ≠ []) ∧ (checked.status = 0 ↔ changed = []) ∧
    replaced.status = 0
  stopped_status : ∀ stop, stop? = some stop →
    checked.status = stop.status front ∧ replaced.status = stop.status front

/-- Both runs get as far as each other, and the same stops them. -/
theorem exists_twins (overrides : List (Text × Value)) {w : World} (hworld : Undisturbed w)
    {ls : List Location} (hfiles : Rehearsable w.store ls) :
    ∃ done rest c d stop?, ls = done ++ rest ∧ (stop? = none ↔ rest = []) ∧
      runFiles overrides .check done { world := w } = (c, none) ∧
        runFiles overrides .replace done { world := w } = (d, none) ∧ Twins overrides w done c d ∧
          runFiles overrides .check ls { world := w } = (c, stop?) ∧
            runFiles overrides .replace ls { world := w } = (d, stop?) ∧
              ∀ l ∈ rest.head?, (runFile overrides .check l c).2 = stop? ∧
                (runFile overrides .replace l d).2 = stop? := by
  obtain ⟨done, rest, c, rfl, hc, hall, hstops⟩ := exists_runFiles_eq overrides .check ls { world := w }
  obtain ⟨d, hd, htwins⟩ := twins_runFiles hworld done (hfiles.subset (List.sublist_append_left done rest)) hc
  cases rest with
  | nil =>
    refine ⟨done, [], c, d, none, rfl, by simp, hc, hd, htwins, hall, ?_, by simp⟩
    rw [List.append_nil, hd]
  | cons l rest =>
    have hsub : List.Sublist (done ++ [l]) (done ++ l :: rest) := by simp
    have hformat := htwins.formatAt_eq (hfiles.subset hsub)
    cases hstop : formatAt overrides c.world l with
    | ok found =>
      -- a check that formats a file gets through it
      obtain ⟨source, formatted⟩ := found
      have hstop' := hstops l rfl
      by_cases htext : formatted.text = source.text
      · rw [(runFile_of_same hstop htext).1] at hstop'
        exact absurd hstop' (by simp)
      · rw [runFile_check_of_ne hstop htext] at hstop'
        exact absurd hstop' (by simp)
    | error stop =>
      have hcheck : runFile overrides .check l c = (c, some stop) := runFile_of_error hstop
      have hreplace : runFile overrides .replace l d = (d, some stop) :=
        runFile_of_error (hformat.trans hstop)
      refine ⟨done, l :: rest, c, d, some stop, rfl, by simp, hc, hd, htwins, ?_, ?_, ?_⟩
      · rw [hall]
        exact hcheck
      · rw [runFiles_append_of_passed _ hd, runFiles_cons_of_stopped hreplace]
      · rintro m ⟨rfl⟩
        exact ⟨by rw [hcheck], by rw [hreplace]⟩

theorem Request.action_eq_check {r : Request} (hcheck : r.check = true) (hinPlace : r.inPlace = false) :
    r.action = .ok .check := by
  simp only [Request.action, hcheck, hinPlace]

/-- What stops a run whose pages cannot be had does not depend on what is to be done with them. -/
theorem exists_perform_of_error {w : World} {files : List Text} {e : PageFailure}
    (h : resolvePages w files = .error e) :
    ∃ stop, ∀ r action, r.action = .ok action → r.files = files →
      perform r w = ({ world := w }, some stop) := by
  cases e with
  | invalid e =>
    refine ⟨.complaint (.badValue e.message), fun r action haction hfiles => ?_⟩
    simp only [perform, haction, hfiles, h]
  | unknownHome =>
    refine ⟨.crash (.page .unknownHome), fun r action haction hfiles => ?_⟩
    simp only [perform, haction, hfiles, h]
  | linkLoop path =>
    refine ⟨.crash (.page (.linkLoop path)), fun r action haction hfiles => ?_⟩
    simp only [perform, haction, hfiles, h]

section

variable {front : FrontEnd} {args args' : List Text} {w : World}

/-- Runs that do not get to their files are the same, and nothing changes. -/
theorem run_eq_of_not_names (h : Counterparts front w args args')
    (hnone : ¬∃ r ls, Names front args w r ls) :
    run front args' w = run front args w ∧ (run front args w).world = w := by
  cases h with
  | refused h h' => simp only [run, h, h', and_self]
  | @read r h h' hcheck hinPlace =>
    cases hpages : resolvePages w r.files with
    | ok ls => exact absurd ⟨r, ls, h, hpages⟩ hnone
    | error e =>
      obtain ⟨stop, hstop⟩ := exists_perform_of_error hpages
      have hperform := hstop r .check (Request.action_eq_check hcheck hinPlace) rfl
      have hperform' := hstop r.replacing .replace (Request.action_eq_replace_iff.mpr ⟨rfl, rfl⟩) rfl
      rw [run_of_read h, run_of_read h', finish_eq front _ hperform, finish_eq front _ hperform']
      exact ⟨rfl, rfl⟩

end

/-- A file that was written anew is not the one that stood there before. -/
theorem Rehearsed.get?_ne {overrides : List (Text × Value)} {w : World} {done : List Location} {s : Store}
    {m : Location} (h : Rehearsed overrides w done s m) (hnumbered : Numbered w.store) :
    s.get? m ≠ w.store.get? m := by
  obtain ⟨before, after, p, f, f', source, text, -, -, -, -, hf', -, hnumber⟩ := h
  intro heq
  exact absurd (hnumbered m f' (heq ▸ hf')) (Nat.not_lt.mpr hnumber)

/-- The files that a check reports are those that a replacement from the same start replaces, each by the
    text that the check computed; both are stopped by the same file with the same error, and without an
    error a check fails exactly where something is left to do. -/
theorem check_agrees_with_replace (front : FrontEnd) (w : World) {args args' : List Text}
    (hargs : Counterparts front w args args') (hcwd : w.store.Direct w.cwd) (hnumbered : Numbered w.store)
    (hworld : Undisturbed w)
    (hfiles : ∀ r ls, Names front args w r ls →
      ls.Nodup ∧ (∀ l ∈ ls, tempFits l = true) ∧ SettingsApart w.store ls) :
    ((¬∃ r ls, Names front args w r ls) →
        run front args' w = run front args w ∧ (run front args w).world = w) ∧
      ∀ r ls, Names front args w r ls → ∃ done rest changed stop?,
        Rehearsal front r.overrides ls done rest changed stop? w (run front args w) (run front args' w) := by
  refine ⟨run_eq_of_not_names hargs, fun r ls hnames => ?_⟩
  obtain ⟨hnodup, hfits, hapart⟩ := hfiles r ls hnames
  have hpages := page_of_resolvePages hcwd hnames.pages
  obtain ⟨done, rest, c, d, stop?, hsplit, hstops, hc, hd, htwins, hcheck, hreplace, hhead⟩ :=
    exists_twins r.overrides hworld ⟨hpages, hnodup, hfits, hapart⟩
  cases hargs with
  | refused h => exact absurd (h.symm.trans hnames.read) (by simp)
  | @read r₀ h h' hchecks hinPlace =>
    cases h.symm.trans hnames.read
    have hnames' : Names front args' w r.replacing ls := ⟨h', hnames.pages⟩
    have hchecked := finish_eq front r
      ((hnames.perform_eq (Request.action_eq_check hchecks hinPlace)).trans hcheck)
    have hreplaced := finish_eq front r.replacing
      ((hnames'.perform_eq (Request.action_eq_replace_iff.mpr ⟨rfl, rfl⟩)).trans hreplace)
    rw [run_of_read h, run_of_read h', hchecked, hreplaced]
    refine ⟨done, rest, c.changed, stop?, hsplit, hstops, ?_, htwins.output, htwins.store, fun m => ?_,
      htwins.rewritten, ⟨_, _, rfl, rfl⟩, ⟨rfl, rfl⟩, ?_, ?_⟩
    · rintro action (rfl | rfl)
      · exact ⟨c, hc, fun l hl => (hhead l hl).1⟩
      · exact ⟨d, hd, fun l hl => (hhead l hl).2⟩
    · refine ⟨fun hm => (htwins.rewritten m hm).get?_ne hnumbered, fun hne => ?_⟩
      by_contra hm
      exact hne (htwins.kept m hm)
    · rintro rfl
      by_cases hchanged : c.changed = [] <;> simp [hchecks, hchanged, Request.replacing]
    · rintro stop rfl
      exact ⟨rfl, rfl⟩

/-- One page is not formatted, one is, and one is no text. The settings stand in a file of their own, and
    another settings file may not be read. -/
theorem check_agrees_with_replace_stopped :
    let front := frontEnd "jspfmt"
    let file (number : Nat) (content : Bytes) : Entry := .file { number, mode := 0o644, changed := 0, content }
    let w : World :=
      { store :=
          { entries := [(["a.jsp".toList], file 1 (Utf8.encode "<%a();%>\n".toList)),
              (["b.jsp".toList], file 2 (Utf8.encode "<p>\n".toList)), (["c.jsp".toList], file 3 [0xff]),
              (["pyproject.toml".toList], file 4 []),
              ([".jspfmt.toml".toList], file 5 (Utf8.encode "[jspfmt]\nmarkup_formatter = 'none'\n".toList))]
            nextNumber := 6 }
        homes := { own := "/".toList }
        library := ⟨fun _ => .ok, fun _ _ _ => .error .malformed⟩
        programs := { replies := [], fallback := fun _ => .notFound }
        denials := fun _ call =>
          if call = .load "/pyproject.toml".toList then some { reason := "Permission denied" } else none }
    let args := ["--code-format-mode=indent-only", "a.jsp", "b.jsp", "c.jsp"].map String.toList
    let checked := run front ("--check".toList :: args) w
    let replaced := run front ("--in-place".toList :: args) w
    checked.output = report ["a.jsp".toList] ∧ ∃ overrides ls done rest changed stop?,
      Rehearsal front overrides ls done rest changed stop? w checked replaced ∧ changed ≠ [] ∧ rest ≠ [] := by
  intro front file w args checked replaced
  let r : Request :=
    { files := ["a.jsp".toList, "b.jsp".toList, "c.jsp".toList], codeMode := some "indent-only".toList,
      check := true }
  have hread : front.read ("--check".toList :: args) w = .ok r :=
    toOption_eq_some_iff.mp (by decide +kernel)
  have hread' : front.read ("--in-place".toList :: args) w = .ok r.replacing :=
    toOption_eq_some_iff.mp (by decide +kernel)
  have hcwd : w.store.Direct w.cwd := ⟨by simp [w], w.store.unlinked_nil⟩
  have hnumbered : Numbered w.store := by
    intro l f hf
    rw [Store.get?] at hf
    split at hf
    · exact absurd hf (by simp)
    · obtain ⟨before, after, hentries, -⟩ := List.lookup_eq_some_iff.mp hf
      have hmem : (l, Entry.file f) ∈ w.store.entries := by simp [hentries]
      simp only [w, file, List.mem_cons, Prod.mk.injEq, Entry.file.injEq, List.not_mem_nil, or_false] at hmem
      rcases hmem with ⟨-, rfl⟩ | ⟨-, rfl⟩ | ⟨-, rfl⟩ | ⟨-, rfl⟩ | ⟨-, rfl⟩ <;> decide
  have hworld : Undisturbed w := by
    refine ⟨fun _ => rfl, fun call hcall => if_neg ?_⟩
    rintro rfl
    exact absurd hcall (by decide)
  have hplaces : resolvePages w r.files = .ok [["a.jsp".toList], ["b.jsp".toList], ["c.jsp".toList]] := by
    decide +kernel
  have hfiles : ∀ r ls, Names front ("--check".toList :: args) w r ls →
      ls.Nodup ∧ (∀ l ∈ ls, tempFits l = true) ∧ SettingsApart w.store ls := by
    intro r' ls hnames
    cases hread.symm.trans hnames.read
    cases hplaces.symm.trans hnames.pages
    exact ⟨by decide +kernel, by decide +kernel, by unfold SettingsApart; decide +kernel⟩
  obtain ⟨done, rest, changed, stop?, h⟩ : ∃ done rest changed stop?,
      Rehearsal front r.overrides _ done rest changed stop? w checked replaced :=
    (check_agrees_with_replace front w (.read hread hread' rfl rfl) hcwd hnumbered hworld hfiles).2 r _
      ⟨hread, hplaces⟩
  obtain ⟨houtput, hstatus⟩ : checked.output = report ["a.jsp".toList] ∧ replaced.status = 1 := by
    decide +kernel
  -- From here on the runs are only what is known about them, and nothing evaluates them again.
  clear_value checked replaced
  refine ⟨houtput, _, _, done, rest, changed, stop?, h, ?_, fun hrest => ?_⟩
  · rintro rfl
    rw [h.reported] at houtput
    exact absurd houtput (by decide)
  · rw [(h.status (h.stops.mpr hrest)).2.2] at hstatus
    exact absurd hstatus (by decide)

/-- Two ways in which the runs disagree. A settings file is a link to the first of two pages: replacing that
    page makes the settings unreadable, so the second page is replaced as well, though a check does not
    report it. And the name of a page leaves no room for that of a temporary file beside it: a check reports
    the page, and replacing it fails. -/
theorem check_disagrees_with_replace :
    let front := frontEnd "jspfmt"
    let file (number : Nat) (text : String) : Entry :=
      .file { number, mode := 0o644, changed := 0, content := Utf8.encode text.toList }
    let w (entries : List (Location × Entry)) : World :=
      { store := { entries, nextNumber := 3 }
        homes := { own := "/".toList }
        library := ⟨fun _ => .ok, fun _ _ _ => .error .malformed⟩
        programs := { replies := [], fallback := fun _ => .notFound } }
    let args (files : List Text) : List Text :=
      "--markup-formatter=none".toList :: "--code-format-mode=indent-only".toList :: files
    let checked (w : World) (files : List Text) := run front ("--check".toList :: args files) w
    let replaced (w : World) (files : List Text) := run front ("--in-place".toList :: args files) w
    let linked := w [(["a.jsp".toList], file 1 "[jspfmt]\nindent_width = 4\n#<%a();%>\n"),
      (["b.jsp".toList], file 2 "<%\n  if (a) \x7b\n      b();\n  \x7d\n%>\n"),
      ([".jspfmt.toml".toList], .link "a.jsp".toList)]
    let name : Text := List.replicate 80 '頁' ++ ".jsp".toList
    let long := w [([name], file 1 "<%a();%>\n")]
    let pages := ["a.jsp".toList, "b.jsp".toList]
    (resolvePages linked pages = .ok [["a.jsp".toList], ["b.jsp".toList]] ∧
      (checked linked pages).output = report ["a.jsp".toList] ∧ (checked linked pages).status = 1 ∧
        (replaced linked pages).status = 0 ∧ (replaced linked pages).world.store.get? ["b.jsp".toList] =
          some (file 4 "<%\n  if (a) \x7b\n    b();\n  \x7d\n%>\n")) ∧
    resolvePages long [name] = .ok [[name]] ∧ (checked long [name]).output ≠ [] ∧
      (replaced long [name]).status = 1 ∧
        (replaced long [name]).world.store.get? [name] = long.store.get? [name] := by
  decide +kernel

end JspLayout.CommandLine
