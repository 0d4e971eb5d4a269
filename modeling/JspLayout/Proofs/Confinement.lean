import JspLayout.Proofs.Lookups

/-! Pages stay below the working directory.

    A path is looked up twice: each of its beginnings by the system, to see whether it is a link, and all of
    it name by name, to find its absolute form. Where the path never goes up from a regular file and is not
    too long, both ways pass the same places. Main statement: what a path is resolved to is a page below the
    working directory, reached without links, and on a straight path none was replaced
    (`resolvePage_confined`). -/

namespace JspLayout

/-! ### Ways without links -/

namespace Store

/-- The names lead from `here` straight to where they lead by name, whatever follows them. -/
def Walked (s : Store) (here : Location) (names : List Text) : Prop :=
  ∀ follow jump? more,
    s.walkNames follow jump? here (names ++ more) = s.walkNames follow jump? (Path.follow here names) more

/-- Something that is no link stands at the place, and directories above it. -/
structure Standing (s : Store) (l : Location) : Prop where
  above : ∀ k, k < l.length → s.get? (l.take k) = some .directory
  there : s.get? l ≠ none
  unlinked : ∀ target, s.get? l ≠ some (.link target)

section

variable {s : Store} {here : Location} {names : List Text}
  {jump? : Option (Location → List Text → Except LookupError Location)}

theorem walked_nil (s : Store) (here : Location) : s.Walked here [] := fun _ _ _ => rfl

theorem Walked.up (h : s.Walked here names) (hdir : s.get? (Path.follow here names) = some .directory) :
    s.Walked here (names ++ [dotDot]) := by
  intro follow jump? more
  have hne : ¬(dotDot = [] ∨ dotDot = dot) := by decide
  rw [List.append_assoc, h, List.singleton_append, walkNames, Path.follow_append, Path.follow_dotDot]
  simp only [hdir, if_neg hne, if_true]

section

variable {name : Text}
  (hdir : s.get? here = some .directory) (hname : PlainName name) (hsize : Utf8.size name ≤ maxNameSize)

include hdir hname hsize

/-- A name leads one step down from a directory. -/
theorem walkNames_down {e : Entry} (hentry : s.get? (here ++ [name]) = some e)
    (hlink : ∀ target, e ≠ .link target) (follow : Bool) (more : List Text) :
    s.walkNames follow jump? here (name :: more) = s.walkNames follow jump? (here ++ [name]) more := by
  rw [walkNames]
  cases e with
  | link target => exact absurd rfl (hlink target)
  | file | directory =>
    simp only [hdir, if_neg (not_or.mpr ⟨hname.ne_nil, hname.ne_dot⟩), if_neg hname.ne_dotDot,
      if_neg (Nat.not_lt.mpr hsize), hentry]

/-- The system sees a link at the end of a path. -/
theorem walkNames_link {target : Text} (hentry : s.get? (here ++ [name]) = some (.link target)) :
    s.walkNames false jump? here [name] = .ok (here ++ [name]) := by
  rw [walkNames]
  simp only [hdir, if_neg (not_or.mpr ⟨hname.ne_nil, hname.ne_dot⟩), if_neg hname.ne_dotDot,
    if_neg (Nat.not_lt.mpr hsize), hentry, and_self, if_true]

end

theorem Walked.down (h : s.Walked here names) {name : Text}
    (hdir : s.get? (Path.follow here names) = some .directory) (hname : PlainName name)
    (hsize : Utf8.size name ≤ maxNameSize) {e : Entry}
    (hentry : s.get? (Path.follow here names ++ [name]) = some e) (hlink : ∀ target, e ≠ .link target) :
    s.Walked here (names ++ [name]) := by
  intro follow jump? more
  rw [List.append_assoc, h, List.singleton_append, walkNames_down hdir hname hsize hentry hlink,
    Path.follow_append, Path.follow_singleton _ hname.ne_nil hname.ne_dot hname.ne_dotDot]

theorem Standing.dropLast {l : Location} (h : s.Standing l) : s.Standing l.dropLast := by
  have hdir : s.get? l.dropLast = some .directory := by
    rcases eq_or_ne l [] with rfl | hne
    · rfl
    · rw [List.dropLast_eq_take]
      exact h.above _ (Nat.sub_one_lt (by simpa using hne))
  refine ⟨fun k hk => ?_, by simp [hdir], by simp [hdir]⟩
  rw [List.length_dropLast] at hk
  rw [List.dropLast_eq_take, List.take_take, Nat.min_eq_left (by omega)]
  exact h.above k (by omega)

theorem Standing.concat {l : Location} (h : s.Standing l) (hdir : s.get? l = some .directory) {name : Text}
    {e : Entry} (hentry : s.get? (l ++ [name]) = some e) (hlink : ∀ target, e ≠ .link target) :
    s.Standing (l ++ [name]) := by
  refine ⟨fun k hk => ?_, by simp [hentry], fun target => by simpa [hentry] using hlink target⟩
  have hk : k ≤ l.length := by simpa [Nat.lt_succ_iff] using hk
  rw [List.take_append_of_le_length hk]
  rcases Nat.lt_or_eq_of_le hk with hk | rfl
  · exact h.above k hk
  · rwa [List.take_length]

theorem Standing.get?_eq {l : Location} (h : s.Standing l) (hfile : ∀ f, s.get? l ≠ some (.file f)) :
    s.get? l = some .directory := by
  cases hl : s.get? l with
  | none => exact absurd hl h.there
  | some e =>
    cases e with
    | file f => exact absurd hl (hfile f)
    | link target => exact absurd hl (h.unlinked target)
    | directory => rfl

theorem directory_of_walkNames {follow : Bool} {name : Text} {rest : List Text} {m : Location}
    (h : s.walkNames follow jump? here (name :: rest) = .ok m) : s.get? here = some .directory := by
  rw [walkNames] at h
  split at h
  · next hdir => exact hdir
  all_goals exact absurd h (by simp)

/-- What a plain name that leads somewhere tells of the first step of the way there. -/
theorem walkNames_cons {follow : Bool} {name : Text} {rest : List Text} {m : Location} (hname : PlainName name)
    (h : s.walkNames follow jump? here (name :: rest) = .ok m) :
    s.get? here = some .directory ∧ Utf8.size name ≤ maxNameSize ∧ ∃ e, s.get? (here ++ [name]) = some e := by
  have hdir := directory_of_walkNames h
  simp only [walkNames, hdir, if_neg (not_or.mpr ⟨hname.ne_nil, hname.ne_dot⟩), if_neg hname.ne_dotDot] at h
  by_cases hsize : Utf8.size name > maxNameSize
  · rw [if_pos hsize] at h
    exact absurd h (by simp)
  rw [if_neg hsize] at h
  cases hentry : s.get? (here ++ [name]) with
  | none =>
    rw [hentry] at h
    exact absurd h (by simp)
  | some e => exact ⟨hdir, Nat.not_lt.mp hsize, e, rfl⟩

/-- What a single name that leads somewhere tells of the way there. -/
theorem walkNames_singleton {name : Text} {m : Location} (hname : PlainName name)
    (h : s.walkNames false jump? here [name] = .ok m) :
    s.get? here = some .directory ∧ Utf8.size name ≤ maxNameSize ∧ m = here ++ [name] := by
  obtain ⟨hdir, hsize, -⟩ := walkNames_cons hname h
  exact ⟨hdir, hsize, walkNames_last hname.ne_nil hname.ne_dot hname.ne_dotDot h⟩

end

end Store

/-! ### Beginnings of paths -/

theorem Text.mem_join {c : Char} (sep : Text) : ∀ {ns : List Text}, c ∈ join sep ns →
    c ∈ sep ∨ ∃ n ∈ ns, c ∈ n
  | [], h => absurd h (by simp [join])
  | [n], h => Or.inr ⟨n, List.mem_cons_self, by simpa [join, List.intercalate] using h⟩
  | n :: m :: ns, h => by
    rw [join_cons_cons] at h
    rcases List.mem_append.mp h with h | h
    · exact Or.inr ⟨n, List.mem_cons_self, h⟩
    rcases List.mem_append.mp h with h | h
    · exact Or.inl h
    · rcases mem_join sep h with h | ⟨k, hk, hc⟩
      · exact Or.inl h
      · exact Or.inr ⟨k, List.mem_cons_of_mem _ hk, hc⟩

theorem Text.mem_join_of_mem {c : Char} (sep : Text) {n : Text} (hc : c ∈ n) : ∀ {ns : List Text}, n ∈ ns →
    c ∈ join sep ns
  | [], h => absurd h List.not_mem_nil
  | [m], h => by
    obtain rfl := List.mem_singleton.mp h
    simpa [join, List.intercalate] using hc
  | m :: k :: ns, h => by
    rw [join_cons_cons]
    rcases List.mem_cons.mp h with rfl | h
    · exact List.mem_append_left _ hc
    · exact List.mem_append_right _ (List.mem_append_right _ (mem_join_of_mem sep hc h))

namespace Path

/-- The path of the first names of a path. -/
def upTo (p : Path) (k : Nat) : Path := { p with names := p.names.take k }

/-- The names of a path as it was read: none is empty, a single dot or divided by a slash. -/
def Proper (p : Path) : Prop := ∀ n ∈ p.names, n ≠ [] ∧ n ≠ dot ∧ '/' ∉ n

theorem Proper.plain {p : Path} (hp : p.Proper) {n : Text} (hn : n ∈ p.names) (hdots : n ≠ dotDot) :
    PlainName n :=
  ⟨(hp n hn).1, (hp n hn).2.1, hdots, (hp n hn).2.2⟩

theorem upTo_mem_chain (p : Path) {k : Nat} (hk : k ≤ p.names.length) : p.upTo k ∈ p.chain :=
  List.mem_map.mpr ⟨k, by simpa [Nat.lt_succ_iff] using hk, rfl⟩

theorem text_of_names {p : Path} (hne : p.names ≠ []) : p.text = p.anchor.text ++ Text.join ['/'] p.names := by
  rw [text, if_neg fun h => hne h.2]

theorem upTo_text_prefix (p : Path) {k : Nat} (hk : p.names.take k ≠ []) : (p.upTo k).text <+: p.text := by
  have hne : p.names ≠ [] := by
    intro h
    simp [h] at hk
  have hjoin := Text.join_prefix ['/'] (p.names.take k) (p.names.drop k)
  rw [List.take_append_drop] at hjoin
  rw [text_of_names hne, text_of_names (p := p.upTo k) hk]
  exact (List.prefix_append_right_inj _).mpr hjoin

/-- A path leads where its names lead from the place it starts at. -/
theorem lookup_text {s : Store} {cwd m : Location} {follow : Bool} {p : Path} (hp : p.Proper)
    (hne : p.names ≠ []) (haccept : Store.Acceptable p.text)
    (h : s.walkNames follow (some (s.walk follow 39)) (p.base cwd) p.names = .ok m) :
    s.lookup cwd follow p.text = .ok m := by
  have hnames : ∀ n ∈ p.names, n ≠ [] ∧ '/' ∉ n := fun n hn => ⟨(hp n hn).1, (hp n hn).2.2⟩
  cases hanchor : p.anchor with
  | here => exact (lookup_text_iff (Or.inl hanchor) hnames hne).mpr ⟨haccept, h⟩
  | root => exact (lookup_text_iff (Or.inr hanchor) hnames hne).mpr ⟨haccept, h⟩
  | doubleRoot =>
    have htext : p.text = '/' :: '/' :: Text.join ['/'] p.names := by
      rw [text_of_names hne, hanchor]
      rfl
    have hsplit : p.text.splitSlash = [] :: [] :: p.names := by
      rw [htext, Text.splitSlash, if_pos rfl, Text.splitSlash, if_pos rfl,
        Text.splitSlash_join hne fun n hn => (hnames n hn).2]
    rw [base, if_neg (by simp [hanchor])] at h
    rw [Store.lookup_ok_iff (by simp [htext]), hsplit, htext, List.head?_cons, if_pos rfl]
    exact ⟨htext ▸ haccept, h⟩

/-- What a path is expanded to is as proper as a path that was read. -/
theorem proper_of_expandHome? {homes : Homes} {raw : Text} {p : Path}
    (h : (ofText raw).expandHome? homes = some p) : p.Proper := by
  intro n hn
  obtain ⟨t, ht⟩ : ∃ t, n ∈ namesOf t := (mem_of_expandHome? h hn).elim (fun h => ⟨raw, h⟩) id
  have hsaid := (List.mem_filter.mp ht).2
  simp only [Bool.and_eq_true, bne_iff_ne] at hsaid
  exact ⟨hsaid.1, hsaid.2, no_slash_of_mem_namesOf ht⟩

/-! ### Both ways at once -/

/-- The system can follow the path as far as its names go: it never goes up from a regular file, and it is
    not too long. -/
structure Straight (s : Store) (cwd : Location) (p : Path) : Prop where
  fits : Utf8.size p.text ≤ maxPathSize
  descends : ∀ k, p.names[k]? = some dotDot → ∀ f, s.get? ((p.upTo k).location cwd) ≠ some (.file f)

/-- After the names `done` of a path the way by name has come to `q`, and the system's way to the same
    place. -/
structure Tracks (s : Store) (cwd : Location) (p : Path) (done : List Text) (q : Path) : Prop where
  sound : q.Sound s cwd
  undotted : ∀ n ∈ q.names, n ≠ dot
  place : q.location cwd = follow (p.base cwd) done
  walked : s.Walked (p.base cwd) done
  standing : s.Standing (follow (p.base cwd) done)
  no_null : ∀ n ∈ done, '\x00' ∉ n

theorem location_entry (cwd : Location) (q : Path) (name : Text) :
    (q.entry name).location cwd = follow (q.location cwd) [name] :=
  follow_append _ _ _

/-- Going up by name leads to the place above. -/
theorem location_up (cwd : Location) {q : Path} (hnames : ∀ n ∈ q.names, n ≠ [] ∧ n ≠ dot) :
    q.up.location cwd = (q.location cwd).dropLast := by
  unfold up
  cases hlast : q.names.getLast? with
  | none =>
    have hnil : q.names = [] := List.getLast?_eq_none_iff.mp hlast
    dsimp only
    split
    · next hhere => simp [location, hhere, hnil, follow, dotDot, dot]
    · next hroot => simp [location, hroot, hnil, follow]
  | some name =>
    dsimp only
    split
    · exact location_entry cwd q dotDot
    · next hdots =>
      obtain ⟨before, hbefore⟩ := List.getLast?_eq_some_iff.mp hlast
      obtain ⟨hnil, hdot⟩ := hnames name (by simp [hbefore])
      simp only [location, parent, hbefore, List.dropLast_concat, follow_append,
        follow_singleton _ hnil hdot hdots]

section

variable {s : Store} {cwd : Location} {p q : Path} {done : List Text}

theorem Tracks.up (h : Tracks s cwd p done q)
    (hfile : ∀ f, s.get? (follow (p.base cwd) done) ≠ some (.file f)) :
    Tracks s cwd p (done ++ [dotDot]) q.up where
  sound := h.sound.up
  undotted n hn := by
    unfold Path.up at hn
    split at hn
    · split at hn
      · obtain rfl := List.mem_singleton.mp hn
        decide
      · exact h.undotted n hn
    · split at hn
      · rcases List.mem_append.mp hn with hn | hn
        · exact h.undotted n hn
        · obtain rfl := List.mem_singleton.mp hn
          decide
      · exact h.undotted n (List.dropLast_subset _ hn)
  place := by
    rw [location_up cwd fun n hn => ⟨(h.sound.named n hn).1, h.undotted n hn⟩, h.place, follow_append,
      follow_dotDot]
  walked := h.walked.up (h.standing.get?_eq hfile)
  standing := by
    rw [follow_append, follow_dotDot]
    exact h.standing.dropLast
  no_null n hn := by
    rcases List.mem_append.mp hn with hn | hn
    · exact h.no_null n hn
    · obtain rfl := List.mem_singleton.mp hn
      decide

/-- An entry that the way by name meets stands one step further down, below a directory. -/
theorem Tracks.entryAt (h : Tracks s cwd p done q) {name : Text} (hname : PlainName name) {m : Location}
    {e : Entry} (hentry : s.entryAt cwd false (q.entry name).text = .ok (m, e)) :
    s.get? (follow (p.base cwd) done) = some .directory ∧ Utf8.size name ≤ maxNameSize ∧ '\x00' ∉ name ∧
      s.get? (follow (p.base cwd) done ++ [name]) = some e := by
  obtain ⟨hlookup, hget⟩ := Store.entryAt_eq_ok.mp hentry
  have hnamed : ∀ n ∈ (q.entry name).names, n ≠ [] ∧ '/' ∉ n := by
    intro n hn
    rcases List.mem_append.mp hn with hn | hn
    · exact h.sound.named n hn
    · rw [List.mem_singleton.mp hn]
      exact ⟨hname.ne_nil, hname.no_slash⟩
  have hne : (q.entry name).names ≠ [] := by simp [Path.entry]
  obtain ⟨haccept, hwalk⟩ := (lookup_text_iff (p := q.entry name) h.sound.anchored hnamed hne).mp hlookup
  obtain ⟨-, hlast⟩ := Store.walkNames_append h.sound.unlinked hwalk
  obtain ⟨hdir, hsize, rfl⟩ := Store.walkNames_singleton hname hlast
  have hplace : follow (q.base cwd) q.names = follow (p.base cwd) done := h.place
  rw [hplace] at hdir hget
  refine ⟨hdir, hsize, fun hnull => haccept.1 ?_, hget⟩
  rw [text_of_names hne]
  exact List.mem_append_right _ (Text.mem_join_of_mem _ hnull (by simp [Path.entry]))

theorem Tracks.down (h : Tracks s cwd p done q) {name : Text} (hname : PlainName name) {m : Location}
    {e : Entry} (hentry : s.entryAt cwd false (q.entry name).text = .ok (m, e))
    (hlink : ∀ target, e ≠ .link target) : Tracks s cwd p (done ++ [name]) (q.entry name) := by
  obtain ⟨hdir, hsize, hnull, hget⟩ := h.entryAt hname hentry
  have hplace := follow_singleton (follow (p.base cwd) done) hname.ne_nil hname.ne_dot hname.ne_dotDot
  refine ⟨h.sound.entry hname.ne_nil hname.ne_dot hname.ne_dotDot hname.no_slash hentry hlink, fun n hn => ?_,
    ?_, h.walked.down hdir hname hsize hget hlink, ?_, fun n hn => ?_⟩
  · rcases List.mem_append.mp hn with hn | hn
    · exact h.undotted n hn
    · obtain rfl := List.mem_singleton.mp hn
      exact hname.ne_dot
  · rw [location_entry, h.place, follow_append]
  · rw [follow_append, hplace]
    exact h.standing.concat hdir hget hlink
  · rcases List.mem_append.mp hn with hn | hn
    · exact h.no_null n hn
    · obtain rfl := List.mem_singleton.mp hn
      exact hnull

/-- Where the way by name meets a link, the system sees it too. -/
theorem Tracks.isLink (h : Tracks s cwd p done q) (hp : p.Proper) (hfits : Utf8.size p.text ≤ maxPathSize)
    {name : Text} {rest : List Text} (hnames : p.names = done ++ name :: rest) (hname : PlainName name)
    {m : Location} {target : Text}
    (hentry : s.entryAt cwd false (q.entry name).text = .ok (m, .link target)) :
    s.isLink cwd (p.upTo (done.length + 1)).text = true := by
  obtain ⟨hdir, hsize, hnull, hget⟩ := h.entryAt hname hentry
  have htake : p.names.take (done.length + 1) = done ++ [name] := by
    rw [hnames, List.take_length_add_append, List.take_succ_cons, List.take_zero]
  have hpart : (p.upTo (done.length + 1)).names = done ++ [name] := htake
  have hne : (p.upTo (done.length + 1)).names ≠ [] := by simp [hpart]
  have hproper : (p.upTo (done.length + 1)).Proper := fun n hn => hp n (List.mem_of_mem_take hn)
  have haccept : Store.Acceptable (p.upTo (done.length + 1)).text := by
    constructor
    · intro hmem
      rw [text_of_names hne, hpart] at hmem
      rcases List.mem_append.mp hmem with hmem | hmem
      · revert hmem
        cases (p.upTo (done.length + 1)).anchor <;> decide
      · rcases Text.mem_join _ hmem with hslash | ⟨n, hn, hin⟩
        · exact absurd hslash (by decide)
        · rcases List.mem_append.mp hn with hn | hn
          · exact h.no_null n hn hin
          · obtain rfl := List.mem_singleton.mp hn
            exact hnull hin
    · obtain ⟨v, hv⟩ := p.upTo_text_prefix hne
      rw [← hv] at hfits
      simp only [Utf8.size, Utf8.encode, List.flatMap_append, List.length_append] at hfits ⊢
      omega
  have hwalk : s.walkNames false (some (s.walk false 39)) (p.base cwd) (done ++ [name]) =
      .ok (follow (p.base cwd) done ++ [name]) :=
    (h.walked false _ [name]).trans (Store.walkNames_link hdir hname hsize hget)
  have hlookup : s.lookup cwd false (p.upTo (done.length + 1)).text =
      .ok (follow (p.base cwd) done ++ [name]) :=
    lookup_text hproper hne haccept (hpart ▸ hwalk)
  rw [Store.isLink, Store.entryAt_eq_ok.mpr ⟨hlookup, hget⟩]

/-- On a straight path none of whose beginnings is a link, the way by name meets no link. -/
theorem tracks_followNames (hp : p.Proper) (hstraight : p.Straight s cwd)
    (hchecked : ∀ part ∈ p.chain, s.isLink cwd part.text = false)
    {replace? : Option (List Path → Path → List Text → Except ResolveError (Path × Bool))}
    {active : List Path} {r : Path} {ended : Bool} : ∀ {rest done : List Text} {q : Path},
    p.names = done ++ rest → Tracks s cwd p done q →
      followNames s cwd true replace? active q rest = .ok (r, ended) →
        Tracks s cwd p p.names r ∧ ∀ k, s.Standing (follow (p.base cwd) (done ++ rest.take k))
  | [], done, q, hnames, htracks, h => by
    cases h
    rw [List.append_nil] at hnames
    exact ⟨hnames ▸ htracks, fun k => by simpa using htracks.standing⟩
  | name :: rest, done, q, hnames, htracks, h => by
    have hmem : name ∈ p.names := by simp [hnames]
    have hnext : ∀ {q'}, Tracks s cwd p (done ++ [name]) q' →
        followNames s cwd true replace? active q' rest = .ok (r, ended) →
          Tracks s cwd p p.names r ∧ ∀ k, s.Standing (follow (p.base cwd) (done ++ (name :: rest).take k)) := by
      intro q' hq' h
      obtain ⟨hr, hstanding⟩ := tracks_followNames hp hstraight hchecked (by simpa using hnames) hq' h
      refine ⟨hr, fun k => ?_⟩
      cases k with
      | zero => simpa using htracks.standing
      | succ k => simpa using hstanding k
    rw [followNames, if_neg (not_or.mpr ⟨(hp name hmem).1, (hp name hmem).2.1⟩)] at h
    by_cases hdots : name = dotDot
    · rw [if_pos hdots] at h
      subst hdots
      have hdescends := hstraight.descends done.length (by simp [hnames])
      have hupTo : (p.upTo done.length).location cwd = follow (p.base cwd) done := by
        simp [Path.location, Path.base, Path.upTo, hnames]
      exact hnext (htracks.up (hupTo ▸ hdescends)) h
    rw [if_neg hdots] at h
    have hname := hp.plain hmem hdots
    dsimp only at h
    split at h
    · next m target hlink =>
      have hbound : done.length + 1 ≤ p.names.length := by simp [hnames]
      have hseen := htracks.isLink hp hstraight.fits hnames hname hlink
      rw [hchecked _ (p.upTo_mem_chain hbound)] at hseen
      exact absurd hseen (by simp)
    · next found hnot hfound =>
      obtain ⟨m, e⟩ := found
      exact hnext (htracks.down hname hfound fun target he => hnot m target (by rw [he])) h
    · rw [if_pos (Or.inl rfl)] at h
      exact absurd h (by simp)

end

end Path

/-! ### The working directory -/

namespace Store

/-- A working directory: a directory below directories, under its own names. -/
structure WorkingDirectory (s : Store) (cwd : Location) : Prop where
  plain : ∀ n ∈ cwd, PlainName n
  directories : ∀ k, s.get? (cwd.take k) = some .directory

theorem WorkingDirectory.direct {s : Store} {cwd : Location} (h : s.WorkingDirectory cwd) : s.Direct cwd :=
  ⟨h.plain, fun k target => by simp [h.directories k]⟩

theorem WorkingDirectory.get?_eq {s : Store} {cwd : Location} (h : s.WorkingDirectory cwd) :
    s.get? cwd = some .directory := by
  simpa using h.directories cwd.length

end Store

/-- A straight path none of whose beginnings is a link is resolved to the place that its names lead to, and
    nothing on the way is a link. -/
theorem resolve_straight {s : Store} {cwd : Location} (hcwd : s.WorkingDirectory cwd) {p : Path} (hp : p.Proper)
    (hstraight : p.Straight s cwd) (hchecked : ∀ part ∈ p.chain, s.isLink cwd part.text = false) {l : Location}
    (h : resolve s cwd true p = .ok l) :
    l = p.location cwd ∧ ∀ k, s.Standing ((p.upTo k).location cwd) := by
  have hbase : s.Standing (p.base cwd) := by
    unfold Path.base
    split
    · exact ⟨fun k _ => hcwd.directories k, by simp [hcwd.get?_eq], by simp [hcwd.get?_eq]⟩
    · exact ⟨by simp, by simp [Store.get?], by simp [Store.get?]⟩
  have hstart : Path.Tracks s cwd p [] (if p.anchor = .here then ⟨.here, []⟩ else .ofLocation []) := by
    refine ⟨?_, ?_, ?_, Store.walked_nil s _, hbase, by simp⟩
    · split
      · exact ⟨Or.inl rfl, by simp, fun k => by simpa [Path.base, Path.follow] using hcwd.direct.unlinked⟩
      · exact sound_root s cwd
    · split <;> simp [Path.ofLocation]
    · unfold Path.base
      split <;> simp [Path.location, Path.ofLocation, Path.follow]
  obtain ⟨⟨q, ended⟩, hq, h⟩ := bind_eq_ok.mp h
  cases h
  obtain ⟨replace?, hfollow⟩ := exists_followLinks_eq s cwd true (linkDepth s)
  rw [hfollow] at hq
  obtain ⟨htracks, hstanding⟩ :=
    Path.tracks_followNames hp hstraight hchecked (List.nil_append _).symm hstart hq
  exact ⟨htracks.place, hstanding⟩

/-! ### Endings -/

namespace Path

/-- The ending of a name is its end, and not all of it. -/
theorem exists_stem {name : Text} (h : suffixOf name ≠ []) :
    ∃ stem : Text, stem ≠ [] ∧ name = stem ++ suffixOf name := by
  unfold suffixOf at h ⊢
  dsimp only at h ⊢
  split at h
  · exact absurd rfl h
  next hproper =>
  rw [if_neg hproper]
  obtain ⟨-, hstem, hlength⟩ : _ ∧ _ ∧ _ := by simpa only [not_or] using hproper
  have hsplit := List.takeWhile_append_dropWhile (p := (· != '.')) (l := name.reverse)
  cases hrest : name.reverse.dropWhile (· != '.') with
  | nil =>
    rw [hrest, List.append_nil] at hsplit
    exact absurd (by rw [hsplit]; simp) hlength
  | cons c rest =>
    have hc : c = '.' := by
      have := List.head?_dropWhile_not (· != '.') name.reverse
      simpa [hrest] using this
    have hname : name = rest.reverse ++ '.' :: (name.reverse.takeWhile (· != '.')).reverse := by
      rw [hrest, hc] at hsplit
      have := congrArg List.reverse hsplit
      simpa using this.symm
    refine ⟨rest.reverse, fun hnil => hstem ?_, hname⟩
    have hlen := congrArg List.length hname
    rw [hnil] at hlen
    simp only [List.length_append, List.length_nil, List.length_cons] at hlen
    rw [List.take_eq_nil_iff]
    omega

end Path

/-! ### Pages below the working directory -/

/-- The place of a page below `base`: its own names lead there, without links, to a regular file whose name
    has one of the endings of pages. -/
structure Store.Confined (s : Store) (base l : Location) : Prop extends s.Page l where
  below : ∃ rest, rest ≠ [] ∧ l = base ++ rest
  ending : ∃ stem ending : Text, stem ≠ [] ∧ l.getLast? = some (stem ++ ending) ∧
    ending.lower ∈ pageSuffixes

theorem confined_of_resolvePage {s : Store} {cwd : Location} (hcwd : s.WorkingDirectory cwd)
    {homes : Path.Homes} {raw : Text} {l : Location}
    (h : resolvePage s cwd homes (.ofLocation cwd) raw = .ok l) : s.Confined cwd l := by
  have hpage := page_of_resolvePage hcwd.direct h
  obtain ⟨path, -, -, -, -, hwithin, hsuffix⟩ := of_resolvePage h
  refine ⟨hpage, ?_, ?_⟩
  · obtain ⟨rest, rfl⟩ : cwd <+: l := by simpa [Path.isWithin, Path.ofLocation] using hwithin
    refine ⟨rest, ?_, rfl⟩
    rintro rfl
    obtain ⟨f, hf⟩ := hpage.file
    rw [List.append_nil, hcwd.get?_eq] at hf
    exact absurd hf (by simp)
  · obtain ⟨name, hname⟩ : ∃ name, l.getLast? = some name := ⟨_, List.getLast?_eq_some_getLast hpage.ne_nil⟩
    have heq : (Path.ofLocation l).suffix = Path.suffixOf name := by simp [Path.suffix, Path.ofLocation, hname]
    rw [heq] at hsuffix
    have hne : Path.suffixOf name ≠ [] := by
      intro hnil
      rw [hnil] at hsuffix
      exact absurd hsuffix (by decide)
    obtain ⟨stem, hstem, hsplit⟩ := Path.exists_stem hne
    exact ⟨stem, _, hstem, hsplit ▸ hname, hsuffix⟩

/-- What a path is resolved to is a page below the working directory. No beginning of the path is a link to
    the system, and on a straight path the names alone lead to the page and pass no link. -/
theorem resolvePage_confined {s : Store} {cwd : Location} (hcwd : s.WorkingDirectory cwd) (homes : Path.Homes)
    (raw : Text) {l : Location} (h : resolvePage s cwd homes (.ofLocation cwd) raw = .ok l) :
    s.Confined cwd l ∧ ∃ path, (Path.ofText raw).expandHome? homes = some path ∧
      (∀ part ∈ path.chain, s.isLink cwd part.text = false) ∧
        (path.Straight s cwd → l = path.location cwd ∧
          ∀ k target, s.get? ((path.upTo k).location cwd) ≠ some (.link target)) := by
  obtain ⟨path, hpath, hchecked, hresolve, -⟩ := of_resolvePage h
  refine ⟨confined_of_resolvePage hcwd h, path, hpath, hchecked, fun hstraight => ?_⟩
  obtain ⟨hplace, hstanding⟩ :=
    resolve_straight hcwd (Path.proper_of_expandHome? hpath) hstraight hchecked hresolve
  exact ⟨hplace, fun k => (hstanding k).unlinked⟩

/-- A path that begins in a home directory and goes up again from one of its directories. -/
theorem resolvePage_confined_home :
    let file : Entry := .file { number := 1, mode := 0o644, changed := 0, content := [] }
    let cwd : Location := ["site".toList]
    let s : Store :=
      { entries := [(cwd, .directory), (cwd ++ ["sub".toList], .directory), (cwd ++ ["Page.JSP".toList], file)] }
    let homes : Path.Homes := { own := "/site".toList }
    let path := Path.ofText "/site/sub/../Page.JSP".toList
    let page := cwd ++ ["Page.JSP".toList]
    s.WorkingDirectory cwd ∧ resolvePage s cwd homes (.ofLocation cwd) "~/sub/../Page.JSP".toList = .ok page ∧
      path.Straight s cwd ∧ s.Confined cwd page ∧
        ∀ k target, s.get? ((path.upTo k).location cwd) ≠ some (.link target) := by
  intro file cwd s homes path page
  have hcwd : s.WorkingDirectory cwd := by
    refine ⟨fun n hn => ?_, fun k => ?_⟩
    · obtain rfl := List.mem_singleton.mp hn
      exact ⟨by decide, by decide, by decide, by decide⟩
    · cases k with
      | zero => rfl
      | succ k => rw [List.take_succ_cons, List.take_nil]; decide +kernel
  have hresolve : resolvePage s cwd homes (.ofLocation cwd) "~/sub/../Page.JSP".toList = .ok page := by
    decide +kernel
  have hstraight : path.Straight s cwd := by
    have hdirs : ∀ k < path.names.length, path.names[k]? = some dotDot →
        s.get? ((path.upTo k).location cwd) = some .directory := by decide +kernel
    refine ⟨by decide +kernel, fun k hk f => ?_⟩
    simp [hdirs k (List.getElem?_eq_some_iff.mp hk).1 hk]
  obtain ⟨hconfined, path', hpath', -, hfree⟩ := resolvePage_confined hcwd homes _ hresolve
  have hsame : (Path.ofText "~/sub/../Page.JSP".toList).expandHome? homes = some path := by decide +kernel
  cases hsame.symm.trans hpath'
  exact ⟨hcwd, hresolve, hstraight, hconfined, (hfree hstraight).2⟩

/-- Double dots after a regular file hide a link from the system, and the link is replaced. -/
theorem resolvePage_crosses_link :
    let file : Entry := .file { number := 1, mode := 0o644, changed := 0, content := [] }
    let s : Store :=
      { entries := [(["a.jsp".toList], file), (["b.jsp".toList], file), (["link.jsp".toList], .link "b.jsp".toList)] }
    let raw := "a.jsp/../link.jsp".toList
    resolvePage s [] { own := "/".toList } (.ofLocation []) raw = .ok ["b.jsp".toList] ∧
      s.get? ((Path.ofText raw).location []) = some (.link "b.jsp".toList) := by
  decide +kernel

end JspLayout
