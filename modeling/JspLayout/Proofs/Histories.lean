import JspLayout.Proofs.Writing

/-! Pages written back after anything may have happened.

    Between reading a page and writing it back the file system may change in any way, and each step of
    writing may be refused. Main statement: writing a page back fails and leaves every entry as it was, or
    replaces the file that was read, still the same as far as its snapshot tells, and nothing else
    (`rewrite_after_run`). Only bits that a change of owner takes away are lost, and such a change may be
    forbidden without harm. -/

namespace JspLayout

/-! ### One attempt to write -/

/-- The file still has the number, the device, the size and the time of the snapshot. -/
structure Unchanged (f : File) (snapshot : Snapshot) : Prop where
  number : f.number = snapshot.number
  device : f.device = snapshot.device
  size : f.content.length = snapshot.size
  changed : f.changed = snapshot.changed

theorem agrees_iff_unchanged {snapshot : Snapshot} {f : File} :
    snapshot.agrees f.snapshot = true ↔ Unchanged f snapshot := by
  simp only [Snapshot.agrees, File.snapshot, Bool.and_eq_true, beq_iff_eq]
  constructor
  · rintro ⟨⟨⟨hnumber, hdevice⟩, hsize⟩, hchanged⟩
    exact ⟨hnumber.symm, hdevice.symm, hsize.symm, hchanged.symm⟩
  · rintro ⟨hnumber, hdevice, hsize, hchanged⟩
    exact ⟨⟨⟨hnumber.symm, hdevice.symm⟩, hsize.symm⟩, hchanged.symm⟩

/-- Nothing that writing a page back takes is refused, unless its owner must not be set. -/
structure Permitted (denials : Denials) : Prop where
  inspect : denials .inspect = none
  create : denials .create = none
  write : denials .write = none
  setMode : denials .setMode = none
  setOwner : ∀ d, denials .setOwner = some d → d.forbidden = true
  rename : denials .rename = none

/-- The denials without those of one operation. -/
def Denials.allowing (denials : Denials) (call : FileCall) : Denials :=
  fun c => if c = call then none else denials c

theorem permitted_allowing_iff {denials : Denials}
    (h : ∀ d, denials .setOwner = some d → d.forbidden = true) :
    Permitted (denials.allowing .setOwner) ↔ Permitted denials := by
  constructor
  · rintro ⟨hinspect, hcreate, hwrite, hsetMode, -, hrename⟩
    exact ⟨hinspect, hcreate, hwrite, hsetMode, h, hrename⟩
  · rintro ⟨hinspect, hcreate, hwrite, hsetMode, -, hrename⟩
    exact ⟨hinspect, hcreate, hwrite, hsetMode, by simp [Denials.allowing], hrename⟩

/-- The file `f` at `l` may be replaced: it is the one that was read, and a temporary file can be made
    beside it. -/
structure Ready (s : Store) (cwd : Location) (denials : Denials) (source : Source) (l : Location) (f : File) :
    Prop where
  inspect : denials .inspect = none
  found : s.entryAt cwd false source.path.text = .ok (l, .file f)
  unchanged : Unchanged f source.snapshot
  create : denials .create = none
  fits : tempFits l = true

section

variable {s : Store} {cwd : Location} {denials : Denials} {source : Source}

/-- A new file is filled and swapped in where the file that was read may be replaced. -/
theorem writeSource_of_ready {l : Location} {f : File} (h : Ready s cwd denials source l f) (content : Text) :
    writeSource s cwd denials source content =
      swapIn ((s.newFile tempMode []).2.insert (freeTemp s l) (.file (s.newFile tempMode []).1)) denials source
        content (freeTemp s l) (s.newFile tempMode []).1 l := by
  have hinspect := inspect_eq_ok.mpr ⟨h.inspect, h.found⟩
  simp only [writeSource, hinspect, agrees_iff_unchanged.mpr h.unchanged, h.create, h.fits, Bool.not_true,
    Bool.false_eq_true, if_false]

/-- Otherwise nothing is touched. -/
theorem writeSource_of_not_ready (h : ¬∃ l f, Ready s cwd denials source l f) (content : Text) :
    ∃ e, writeSource s cwd denials source content = ⟨.error e, s, []⟩ := by
  unfold writeSource
  cases hinspect : inspect s cwd denials source.path with
  | error e => exact ⟨e, rfl⟩
  | ok found =>
    obtain ⟨l, f⟩ := found
    obtain ⟨hallowed, hfound⟩ := inspect_eq_ok.mp hinspect
    dsimp only
    split
    · exact ⟨_, rfl⟩
    · next hagrees =>
      split
      · exact ⟨_, rfl⟩
      · next hcreate =>
        split
        · exact ⟨_, rfl⟩
        · next hfits =>
          refine absurd ⟨l, f, hallowed, hfound, agrees_iff_unchanged.mp ?_, hcreate, ?_⟩ h
          · simpa using hagrees
          · simpa using hfits

end

theorem swapIn_ok_iff {s : Store} {denials : Denials} {source : Source} {content : Text} {temp l : Location}
    {f : File} : (swapIn s denials source content temp f l).result = .ok () ↔
      denials .write = none ∧ denials .setMode = none ∧
        (∀ d, denials .setOwner = some d → d.forbidden = true) ∧ denials .rename = none := by
  unfold swapIn
  cases denials .write with
  | some d => simp
  | none =>
    cases denials .setMode with
    | some d => simp
    | none =>
      cases denials .setOwner with
      | none => cases denials .rename <;> simp
      | some d => cases hd : d.forbidden <;> cases denials .rename <;> simp [Option.filter, hd]

/-! ### What comes of an attempt -/

/-- The file `f` at the end of the path of `source`, the same as when it was read, has given way to `f'`,
    which holds `content`. Every other entry is as it was. -/
structure Swapped (s : Store) (cwd : Location) (denials : Denials) (source : Source) (content : Text)
    (l : Location) (f f' : File) (after : Store) : Prop where
  found : s.entryAt cwd false source.path.text = .ok (l, .file f)
  unchanged : Unchanged f source.snapshot
  written : after.entryAt cwd false source.path.text = .ok (l, .file f')
  content : f'.content = Utf8.encode content
  mode : f'.mode = replacedMode denials source.snapshot.mode
  /-- All bits are kept but for those that a change of owner takes away. -/
  bits : KeepsMode source.snapshot.mode f'.mode
  others : ∀ m, m ≠ l → after.get? m = s.get? m

/-- A file system in which a regular file took the place of another one has the same shape. -/
theorem Store.sameShape_of_swap {s after : Store} {l : Location} {f f' : File} (hf : s.get? l = some (.file f))
    (hf' : after.get? l = some (.file f')) (hothers : ∀ m, m ≠ l → after.get? m = s.get? m) :
    s.SameShape after := by
  intro m
  by_cases hm : m = l
  · subst hm
    exact Or.inr ⟨f, f', hf, hf'⟩
  · exact Or.inl (hothers m hm)

section

variable (s : Store) (cwd : Location) (denials : Denials) (source : Source) (content : Text)

/-- Writing a page back succeeds exactly where nothing is refused, the page's path leads to the file that
    was read, and the name of the temporary file fits. -/
theorem writeSource_ok_iff : (writeSource s cwd denials source content).result = .ok () ↔
    Permitted denials ∧ ∃ l f, s.entryAt cwd false source.path.text = .ok (l, .file f) ∧
      Unchanged f source.snapshot ∧ tempFits l = true := by
  constructor
  · intro h
    by_cases hready : ∃ l f, Ready s cwd denials source l f
    · obtain ⟨l, f, hready⟩ := hready
      rw [writeSource_of_ready hready, swapIn_ok_iff] at h
      obtain ⟨hwrite, hsetMode, hsetOwner, hrename⟩ := h
      exact ⟨⟨hready.inspect, hready.create, hwrite, hsetMode, hsetOwner, hrename⟩, l, f, hready.found,
        hready.unchanged, hready.fits⟩
    · obtain ⟨e, herror⟩ := writeSource_of_not_ready hready content
      rw [herror] at h
      exact absurd h (by simp)
  · rintro ⟨hpermitted, l, f, hfound, hunchanged, hfits⟩
    rw [writeSource_of_ready ⟨hpermitted.inspect, hfound, hunchanged, hpermitted.create, hfits⟩, swapIn_ok_iff]
    exact ⟨hpermitted.write, hpermitted.setMode, hpermitted.setOwner, hpermitted.rename⟩

/-- Writing a page back fails and leaves every entry as it was, or swaps the file that was read. -/
theorem writeSource_swaps_or_fails :
    (∃ e, (writeSource s cwd denials source content).result = .error e ∧
        ∀ m, (writeSource s cwd denials source content).store.get? m = s.get? m) ∨
      (writeSource s cwd denials source content).result = .ok () ∧ ∃ l f f',
        Swapped s cwd denials source content l f f' (writeSource s cwd denials source content).store := by
  by_cases hready : ∃ l f, Ready s cwd denials source l f
  · obtain ⟨l, f, hready⟩ := hready
    obtain ⟨hlookup, hf⟩ := Store.entryAt_eq_ok.mp hready.found
    have hl : l ≠ [] := by
      rintro rfl
      simp [Store.get?] at hf
    have houtcome := writeOutcome_swapIn denials source content (s.freeTemp_ne_nil l) (s.get?_freeTemp l) hl
    rw [← writeSource_of_ready hready] at houtcome
    generalize writeSource s cwd denials source content = out at houtcome
    cases houtcome with
    | failed hsame => exact Or.inl ⟨_, rfl, hsame⟩
    | @replaced f' store notes hf' hcontent hmode _ _ hothers =>
      have hshape := Store.sameShape_of_swap hf hf' hothers
      have hkeeps : KeepsMode source.snapshot.mode f'.mode :=
        hmode ▸ (keepsMode_iff.mpr (Or.inl rfl)).replacedMode denials
      exact Or.inr ⟨rfl, l, f, f', hready.found, hready.unchanged,
        Store.entryAt_eq_ok.mpr ⟨(hshape.lookup_eq cwd false _).trans hlookup, hf'⟩, hcontent, hmode, hkeeps,
        hothers⟩
  · obtain ⟨e, herror⟩ := writeSource_of_not_ready hready content
    rw [herror]
    exact Or.inl ⟨e, rfl, fun _ => rfl⟩

end

/-! ### Histories -/

/-- Something that happens to a file system in which pages are read and written back. -/
inductive Event where
  | read (path : Path) (limit : Int) (denials : Denials)
  /-- Something else overwrites, replaces or removes entries or puts others in their place. -/
  | change (after : Store)
  | write (source : Source) (content : Text) (denials : Denials)

/-- A file system, and the pages that have been read. -/
structure Editing where
  store : Store
  sources : List Source := []

/-- What comes of an event. -/
def Editing.step (cwd : Location) (h : Editing) : Event → Editing
  | .read path limit denials =>
    { h with sources := (readSource h.store cwd denials path limit).toOption.toList ++ h.sources }
  | .change after => { h with store := after }
  | .write source content denials => { h with store := (writeSource h.store cwd denials source content).store }

/-- What comes of one event after another. -/
def Editing.run (cwd : Location) (h : Editing) (events : List Event) : Editing := events.foldl (step cwd) h

theorem Editing.run_concat (cwd : Location) (h : Editing) (events : List Event) (e : Event) :
    h.run cwd (events ++ [e]) = (h.run cwd events).step cwd e := by
  rw [run, List.foldl_concat, run]

/-- The page was read from the file `f` at an earlier time, when no more than the events `before` had
    happened. -/
structure ReadFrom (cwd : Location) (s : Store) (before : List Event) (source : Source) (f : File) : Prop where
  found : ∃ l, (Editing.run cwd ⟨s, []⟩ before).store.entryAt cwd false source.path.text = .ok (l, .file f)
  snapshot : source.snapshot = f.snapshot
  text : ∃ raw, Utf8.decode f.content = .ok raw ∧ source.text = raw.unixLines

/-- Every page that has been read was read at some point of the history. -/
theorem exists_readFrom (cwd : Location) (s : Store) (events : List Event) {source : Source}
    (h : source ∈ (Editing.run cwd ⟨s, []⟩ events).sources) :
    ∃ before limit refused after f, events = before ++ .read source.path limit refused :: after ∧
      ReadFrom cwd s before source f := by
  induction events using List.reverseRecOn with
  | nil => exact absurd h (by simp [Editing.run])
  | append_singleton events e ih =>
    have hearlier : source ∈ (Editing.run cwd ⟨s, []⟩ events).sources →
        ∃ before limit refused after f, events ++ [e] = before ++ .read source.path limit refused :: after ∧
          ReadFrom cwd s before source f := by
      intro h
      obtain ⟨before, limit, refused, after, f, hevents, hread⟩ := ih h
      exact ⟨before, limit, refused, after ++ [e], f, by simp [hevents], hread⟩
    rw [Editing.run_concat] at h
    cases e with
    | change after => exact hearlier h
    | write written content denials => exact hearlier h
    | read path limit denials =>
      rcases List.mem_append.mp h with h | h
      · cases hsource : readSource (Editing.run cwd ⟨s, []⟩ events).store cwd denials path limit with
        | error e =>
          rw [hsource] at h
          exact absurd h (by simp [Except.toOption])
        | ok source' =>
          rw [hsource] at h
          obtain rfl : source = source' := by simpa [Except.toOption] using h
          obtain ⟨rfl, l, f, hfound, hsnapshot, htext⟩ := of_readSource hsource
          exact ⟨events, limit, denials, [], f, rfl, ⟨l, hfound⟩, hsnapshot, htext⟩
      · exact hearlier h

/-- Whatever has happened since a page was read, and whatever is refused: writing it back fails and leaves
    every entry as it was, or puts the new content in the place of a file that has the number, the
    device, the size and the time of the one that was read, and leaves every other entry as it was. It
    succeeds exactly where such a file is there and nothing is refused, and that the owner must not be
    set changes nothing about this. -/
theorem rewrite_after_run (cwd : Location) (s : Store) (events : List Event) {source : Source}
    (hsource : source ∈ (Editing.run cwd ⟨s, []⟩ events).sources) (denials : Denials) (content : Text) :
    let now := (Editing.run cwd ⟨s, []⟩ events).store
    let out := writeSource now cwd denials source content
    (∃ before limit refused after f, events = before ++ .read source.path limit refused :: after ∧
        ReadFrom cwd s before source f) ∧
      ((∃ e, out.result = .error e ∧ ∀ m, out.store.get? m = now.get? m) ∨
        out.result = .ok () ∧ ∃ l f f', Swapped now cwd denials source content l f f' out.store) ∧
      (out.result = .ok () ↔ Permitted denials ∧ ∃ l f,
        now.entryAt cwd false source.path.text = .ok (l, .file f) ∧ Unchanged f source.snapshot ∧
          tempFits l = true) ∧
      ∀ d, denials .setOwner = some d → d.forbidden = true →
        (out.result = .ok () ↔
          (writeSource now cwd (denials.allowing .setOwner) source content).result = .ok ()) := by
  intro now out
  refine ⟨exists_readFrom cwd s events hsource, writeSource_swaps_or_fails now cwd denials source content,
    writeSource_ok_iff now cwd denials source content, fun d hd hforbidden => ?_⟩
  rw [writeSource_ok_iff, writeSource_ok_iff, permitted_allowing_iff]
  intro d' hd'
  cases hd.symm.trans hd'
  exact hforbidden

/-- A page is written back after a link to it has appeared, by someone who must not set its owner. -/
theorem rewrite_after_link :
    let page : Location := ["a.jsp".toList]
    let file : File := { number := 1, mode := 0o4750, changed := 0, content := Utf8.encode "<%a();%>".toList }
    let s : Store := { entries := [(page, .file file)], nextNumber := 2 }
    let events : List Event :=
      [.read (.ofLocation page) 100 fun _ => none, .change (s.insert ["b.jsp".toList] (.link "a.jsp".toList))]
    let denials : Denials := fun c =>
      if c = .setOwner then some { forbidden := true, reason := "[Errno 1] Operation not permitted" } else none
    let now := (Editing.run [] ⟨s, []⟩ events).store
    let content := "<% a(); %>".toList
    ∃ source ∈ (Editing.run [] ⟨s, []⟩ events).sources,
      (writeSource now [] denials source content).result = .ok () ∧ ∃ l f f',
        Swapped now [] denials source content l f f' (writeSource now [] denials source content).store ∧
          f'.mode = 0o4750 := by
  intro page file s events denials now content
  have hrun : (Editing.run [] ⟨s, []⟩ events).sources.map (fun source =>
      (source.snapshot.mode, (writeSource now [] denials source content).result)) = [(0o4750, .ok ())] := by
    decide +kernel
  obtain ⟨source, hsource, hresult⟩ := List.mem_map.mp (hrun ▸ List.mem_cons_self)
  obtain ⟨hmode, hok⟩ := Prod.mk.inj hresult
  rcases (rewrite_after_run [] s events hsource denials content).2.1 with ⟨e, herror, -⟩ | ⟨-, l, f, f', hswapped⟩
  · exact absurd (hok.symm.trans herror) (by simp)
  · refine ⟨source, hsource, hok, l, f, f', hswapped, ?_⟩
    rw [hswapped.mode, hmode]
    rfl

/-- A page that may run as its owner, which it may not any more after it was written back. -/
theorem writeSource_loses_bits :
    let page : Location := ["a.jsp".toList]
    let file (number mode : Nat) (text : String) : Entry :=
      .file { number, mode, changed := 0, content := Utf8.encode text.toList }
    let s : Store := { entries := [(page, file 1 0o4755 "<%a();%>")], nextNumber := 2 }
    ∃ source, readSource s [] (fun _ => none) (.ofLocation page) 100 = .ok source ∧
      source.snapshot.mode = 0o4755 ∧
        (writeSource s [] (fun _ => none) source "<% a(); %>".toList).result = .ok () ∧
          (writeSource s [] (fun _ => none) source "<% a(); %>".toList).store.get? page =
            some (file 2 0o755 "<% a(); %>") := by
  intro page file s
  have hread : (readSource s [] (fun _ => none) (.ofLocation page) 100).map (fun source =>
      (source.snapshot.mode, (writeSource s [] (fun _ => none) source "<% a(); %>".toList).result,
        (writeSource s [] (fun _ => none) source "<% a(); %>".toList).store.get? page)) =
      .ok (0o4755, .ok (), some (file 2 0o755 "<% a(); %>")) := by
    decide +kernel
  cases hsource : readSource s [] (fun _ => none) (.ofLocation page) 100 with
  | error e =>
    rw [hsource] at hread
    exact absurd hread (by simp [Except.map])
  | ok source =>
    rw [hsource] at hread
    simp only [Except.map, Except.ok.injEq, Prod.mk.injEq] at hread
    exact ⟨source, rfl, hread⟩

end JspLayout
