import Mathlib.Data.List.Perm.Subperm
import JspLayout.CommandLine.Run
import JspLayout.Proofs.Lookups
import JspLayout.Proofs.Markers

/-! Writing a page back.

    The temporary file stands where nothing stood before, so that nothing is left of it whether or not
    it takes the place of the page. Main statements: writing a page back either leaves every entry as it
    was or changes the file of the page alone (`writeOutcome_writeSource`), and it succeeds where nothing
    is refused and the name of the temporary file fits (`writeSource_ok`). -/

namespace JspLayout

/-! ### Temporary files -/

theorem numberedTemp_inj {l : Location} {n n' : Nat} (h : numberedTemp l n = numberedTemp l n') : n = n' := by
  simp only [numberedTemp, List.append_cancel_left_eq, List.cons.injEq, List.cons_append, true_and, and_true,
    List.append_cancel_right_eq] at h
  exact Text.ofNat_inj h

theorem numberedTemp_ne_nil (l : Location) (n : Nat) : numberedTemp l n ≠ [] := by simp [numberedTemp]

namespace Store

theorem mem_keys_of_get? {s : Store} {l : Location} (hl : l ≠ []) (h : s.get? l ≠ none) :
    l ∈ s.entries.map Prod.fst := by
  rw [get?, if_neg hl] at h
  obtain ⟨e, he⟩ := Option.ne_none_iff_exists'.mp h
  obtain ⟨before, after, heq, -⟩ := List.lookup_eq_some_iff.mp he
  simp [heq]

/-- Of as many places as there are entries and one more, one is free. -/
theorem get?_freeTemp (s : Store) (l : Location) : s.get? (freeTemp s l) = none := by
  unfold freeTemp
  cases hfind : (List.range (s.entries.length + 1)).find? fun n => (s.get? (numberedTemp l n)).isNone with
  | some n => simpa using List.find?_some hfind
  | none =>
    have htaken : (List.range (s.entries.length + 1)).map (numberedTemp l) ⊆ s.entries.map Prod.fst := by
      intro m hm
      obtain ⟨n, hn, rfl⟩ := List.mem_map.mp hm
      refine mem_keys_of_get? (numberedTemp_ne_nil l n) fun hfree => ?_
      exact List.find?_eq_none.mp hfind n hn (by simp [hfree])
    have hnodup : ((List.range (s.entries.length + 1)).map (numberedTemp l)).Nodup :=
      List.nodup_range.map fun _ _ h => numberedTemp_inj h
    have hle := (hnodup.subperm htaken).length_le
    simp at hle

theorem freeTemp_ne_nil (s : Store) (l : Location) : freeTemp s l ≠ [] := numberedTemp_ne_nil _ _

/-- Nothing is left of an entry that was put at a free place and erased again. -/
theorem get?_erase_insert {s : Store} {t : Location} (ht : t ≠ []) (hfree : s.get? t = none) (e : Entry)
    (m : Location) : ((s.insert t e).erase t).get? m = s.get? m := by
  by_cases hm : m = t
  · subst hm
    rw [hfree, get?, if_neg ht, List.lookup_eq_none_iff]
    intro x hx
    exact bne_iff_ne.mpr (bne_iff_ne.mp (List.mem_filter.mp hx).2).symm
  · rw [get?_erase_of_ne _ hm, get?_insert_of_ne _ _ hm]

end Store

/-! ### What comes of writing -/

/-- The permission bits of a page's file after it was replaced. -/
def replacedMode (denials : Denials) (mode : Nat) : Nat :=
  if (denials .setOwner).isSome then mode else ownedMode mode

/-- Whether a program may run as another user, or as a group that may run it. -/
def isPrivileged (mode : Nat) : Bool :=
  hasBit mode setUserBit || (hasBit mode setGroupBit && hasBit mode groupRunBit)

section

variable (mode : Nat)

theorem ownedMode_ownedMode : ownedMode (ownedMode mode) = ownedMode mode := by
  unfold ownedMode hasBit setGroupBit groupRunBit setUserBit
  simp only [Bool.and_eq_true, beq_iff_eq]
  split_ifs <;> omega

theorem ownedMode_mod : ownedMode mode % setGroupBit = mode % setGroupBit := by
  unfold ownedMode hasBit setGroupBit groupRunBit setUserBit
  simp only [Bool.and_eq_true, beq_iff_eq]
  split_ifs <;> omega

theorem ownedMode_eq_self_iff : ownedMode mode = mode ↔ isPrivileged mode = false := by
  unfold ownedMode isPrivileged hasBit setGroupBit groupRunBit setUserBit
  simp only [Bool.and_eq_true, beq_iff_eq, Bool.or_eq_false_iff, Bool.and_eq_false_iff, beq_eq_false_iff_ne]
  split_ifs <;> omega

end

/-- Permission bits after files were replaced, once or more often: the right to run as another user or
    group may be lost, and nothing else. -/
structure KeepsMode (mode mode' : Nat) : Prop where
  eq_or_owned : mode' = mode ∨ mode' = ownedMode mode
  mod_eq : mode' % setGroupBit = mode % setGroupBit
  eq_of_not_privileged : isPrivileged mode = false → mode' = mode

theorem keepsMode_iff {mode mode' : Nat} : KeepsMode mode mode' ↔ mode' = mode ∨ mode' = ownedMode mode := by
  refine ⟨KeepsMode.eq_or_owned, fun h => ⟨h, ?_, fun hmode => ?_⟩⟩
  · rcases h with rfl | rfl
    · rfl
    · exact ownedMode_mod mode
  · rcases h with rfl | rfl
    · rfl
    · exact (ownedMode_eq_self_iff mode).mpr hmode

theorem KeepsMode.replacedMode {mode mode' : Nat} (h : KeepsMode mode mode') (denials : Denials) :
    KeepsMode mode (replacedMode denials mode') := by
  rw [keepsMode_iff] at h ⊢
  unfold JspLayout.replacedMode
  split
  · exact h
  · rcases h with rfl | rfl
    · exact Or.inr rfl
    · exact Or.inr (ownedMode_ownedMode mode)

/-- Writing a page back leaves everything as it was, or changes the file of the page alone. -/
inductive WriteOutcome (s : Store) (denials : Denials) (l : Location) (source : Source) (content : Text) :
    Written → Prop
  | failed {e : SourceError} {store : Store} {notes : List Note} (hsame : ∀ m, store.get? m = s.get? m) :
      WriteOutcome s denials l source content ⟨.error e, store, notes⟩
  | replaced {f : File} {store : Store} {notes : List Note} (hfile : store.get? l = some (.file f))
      (hcontent : f.content = Utf8.encode content) (hmode : f.mode = replacedMode denials source.snapshot.mode)
      (hnumber : f.number = s.nextNumber) (hnext : store.nextNumber = s.nextNumber + 1)
      (hothers : ∀ m, m ≠ l → store.get? m = s.get? m) :
      WriteOutcome s denials l source content ⟨.ok (), store, notes⟩

theorem writeOutcome_swapIn {s : Store} (denials : Denials) (source : Source) (content : Text)
    {temp : Location} (htemp : temp ≠ []) (hfree : s.get? temp = none) {l : Location} (hl : l ≠ []) :
    WriteOutcome s denials l source content
      (swapIn ((s.newFile tempMode []).2.insert temp (.file (s.newFile tempMode []).1)) denials source content
        temp (s.newFile tempMode []).1 l) := by
  have hgone := Store.get?_erase_insert (s := (s.newFile tempMode []).2) htemp hfree
    (.file (s.newFile tempMode []).1)
  unfold swapIn
  dsimp only
  split
  · exact .failed hgone
  · exact .failed hgone
  · split
    · exact .failed hgone
    · exact .failed hgone
    · refine .replaced (Store.get?_insert_self _ _ hl) rfl ?_ rfl rfl fun m hm => ?_
      · cases h : denials .setOwner <;> simp [replacedMode, h]
      · rw [Store.get?_insert_of_ne _ _ hm, hgone]
        rfl

/-! ### Pages -/

theorem inspect_eq_ok {s : Store} {cwd l : Location} {denials : Denials} {path : Path} {f : File} :
    inspect s cwd denials path = .ok (l, f) ↔
      denials .inspect = none ∧ s.entryAt cwd false path.text = .ok (l, .file f) := by
  unfold inspect
  cases denials .inspect with
  | some d => simp
  | none =>
    cases s.entryAt cwd false path.text with
    | error e => cases e <;> simp
    | ok found =>
      obtain ⟨m, e⟩ := found
      cases e <;> simp

/-- What is read is the text of a regular file, with its snapshot. -/
theorem of_readSource {s : Store} {cwd : Location} {denials : Denials} {path : Path} {limit : Int}
    {source : Source} (h : readSource s cwd denials path limit = .ok source) :
    source.path = path ∧ ∃ l f, s.entryAt cwd false path.text = .ok (l, .file f) ∧
      source.snapshot = f.snapshot ∧ ∃ raw, Utf8.decode f.content = .ok raw ∧ source.text = raw.unixLines := by
  obtain ⟨⟨l, f⟩, hinspect, h⟩ := bind_eq_ok.mp h
  obtain ⟨-, h⟩ := refusal_eq_ok.mp h
  cases hread : denials .read with
  | some d =>
    rw [hread] at h
    exact absurd h (by simp [throw, throwThe, MonadExceptOf.throw, bind, Except.bind])
  | none =>
    rw [hread] at h
    obtain ⟨raw, hraw, h⟩ := bind_eq_ok.mp h
    cases h
    exact ⟨rfl, l, f, (inspect_eq_ok.mp hinspect).2, rfl, raw, mapError_eq_ok.mp hraw, rfl⟩

/-- Whether an operation is on a settings file. -/
def FileCall.onSettings : FileCall → Bool
  | .lookUp _ | .load _ => true
  | _ => false

/-- No operation on pages is refused. -/
def Denials.GrantPages (denials : Denials) : Prop := ∀ call, call.onSettings = false → denials call = none

theorem inspect_page {s : Store} {l : Location} (hl : s.Page l) {f : File} (hf : s.get? l = some (.file f))
    (cwd : Location) (denials : Denials) :
    inspect s cwd denials (.ofLocation l) =
      (denials .inspect).elim (.ok (l, f)) fun d =>
        .error (.file (.noAccess (Path.ofLocation l).text d.reason)) := by
  unfold inspect
  cases denials .inspect with
  | some d => rfl
  | none => simp only [hl.entryAt_eq hf cwd false, Option.elim_none]

section

variable {s : Store} {l : Location} (hl : s.Page l) {source : Source} (hpath : source.path = .ofLocation l)

include hl hpath

theorem writeOutcome_writeSource (cwd : Location) (denials : Denials) (content : Text) :
    WriteOutcome s denials l source content (writeSource s cwd denials source content) := by
  obtain ⟨f, hf⟩ := hl.file
  have hsame : ∀ m, s.get? m = s.get? m := fun _ => rfl
  have hinspect := inspect_page hl hf cwd denials
  unfold writeSource
  rw [hpath]
  cases hd : denials .inspect with
  | some d =>
    rw [hd, Option.elim_some] at hinspect
    simp only [hinspect]
    exact .failed hsame
  | none =>
    rw [hd, Option.elim_none] at hinspect
    simp only [hinspect]
    split
    · exact .failed hsame
    · split
      · exact .failed hsame
      · split
        · exact .failed hsame
        · exact writeOutcome_swapIn denials source content (s.freeTemp_ne_nil l) (s.get?_freeTemp l) hl.ne_nil

/-- A page whose file is as it was read is written back, if no operation on pages is refused. -/
theorem writeSource_ok {f : File} (hf : s.get? l = some (.file f)) (hsnapshot : source.snapshot = f.snapshot)
    (hfits : tempFits l = true) (cwd : Location) {denials : Denials} (hgranted : denials.GrantPages)
    (content : Text) : (writeSource s cwd denials source content).result = .ok () := by
  have hinspect := inspect_page hl hf cwd denials
  have hagrees : source.snapshot.agrees f.snapshot = true := by simp [hsnapshot, Snapshot.agrees]
  rw [hgranted .inspect rfl, Option.elim_none] at hinspect
  simp [writeSource, hpath, hinspect, hagrees, hfits, swapIn, hgranted .create rfl, hgranted .write rfl,
    hgranted .setMode rfl, hgranted .setOwner rfl, hgranted .rename rfl]

end

end JspLayout
