import JspLayout.Files.Resolve
import JspLayout.Proofs.Loading

/-! Places that paths lead to.

    Looking up a path does not depend on what regular files hold, so it comes to the same in two file
    systems of the same shape. Along a path without links each name leads one step further. Main
    statements: the place of a page is free of links and the path of a page leads to that place
    (`Page.entryAt_eq`), and where the settings for a page are looked for depends on its place alone
    (`Page.resolve_parent`). -/

namespace JspLayout

/-! ### Names in paths -/

/-- A name of an entry: not empty, no dots that stand for a directory, no slash. -/
structure PlainName (n : Text) : Prop where
  ne_nil : n ≠ []
  ne_dot : n ≠ dot
  ne_dotDot : n ≠ dotDot
  no_slash : '/' ∉ n

namespace Text

theorem splitSlash_of_not_mem : ∀ {s : Text}, '/' ∉ s → splitSlash s = [s]
  | [], _ => rfl
  | c :: s, h => by
    have hc : c ≠ '/' := fun hc => h (hc ▸ List.mem_cons_self)
    rw [splitSlash, if_neg hc, splitSlash_of_not_mem fun hs => h (List.mem_cons_of_mem _ hs)]

theorem splitSlash_append_slash (t : Text) : ∀ {s : Text}, '/' ∉ s →
    splitSlash (s ++ '/' :: t) = s :: splitSlash t
  | [], _ => by rw [List.nil_append, splitSlash, if_pos rfl]
  | c :: s, h => by
    have hc : c ≠ '/' := fun hc => h (hc ▸ List.mem_cons_self)
    rw [List.cons_append, splitSlash, if_neg hc,
      splitSlash_append_slash t fun hs => h (List.mem_cons_of_mem _ hs)]

theorem join_cons_cons (sep : Text) (n m : Text) (ns : List Text) :
    join sep (n :: m :: ns) = n ++ (sep ++ join sep (m :: ns)) := by
  simp [join, List.intercalate, List.intersperse]

/-- Names without slashes are got back from the path that joins them. -/
theorem splitSlash_join : ∀ {ns : List Text}, ns ≠ [] → (∀ n ∈ ns, '/' ∉ n) →
    splitSlash (join ['/'] ns) = ns
  | [], h, _ => absurd rfl h
  | [n], _, h => by
    have hn := h n List.mem_cons_self
    simpa [join, List.intercalate] using splitSlash_of_not_mem hn
  | n :: m :: ns, _, h => by
    rw [join_cons_cons, List.singleton_append, splitSlash_append_slash _ (h n List.mem_cons_self),
      splitSlash_join (List.cons_ne_nil _ _) fun x hx => h x (List.mem_cons_of_mem _ hx)]

theorem no_slash_of_mem_splitSlash : ∀ {s n : Text}, n ∈ splitSlash s → '/' ∉ n
  | [], n, h => by
    obtain rfl : n = [] := by simpa [splitSlash] using h
    simp
  | c :: s, n, h => by
    rw [splitSlash] at h
    split at h
    · rcases List.mem_cons.mp h with rfl | h
      · simp
      · exact no_slash_of_mem_splitSlash h
    · next hc =>
      cases hs : splitSlash s with
      | nil =>
        obtain rfl : n = [c] := by simpa [hs] using h
        simpa using fun h : '/' = c => hc h.symm
      | cons m ms =>
        rw [hs] at h
        rcases List.mem_cons.mp h with rfl | h
        · have hm : '/' ∉ m := no_slash_of_mem_splitSlash (hs ▸ List.mem_cons_self)
          simpa [hm] using fun h : '/' = c => hc h.symm
        · exact no_slash_of_mem_splitSlash (hs ▸ List.mem_cons_of_mem _ h)

/-- The path of the first names is the beginning of the path of all. -/
theorem join_prefix (sep : Text) : ∀ (ns ms : List Text), join sep ns <+: join sep (ns ++ ms)
  | [], ms => by simp [join, List.intercalate]
  | [n], [] => by simp
  | [n], m :: ms => by
    rw [List.singleton_append, join_cons_cons]
    simp [join, List.intercalate]
  | n :: m :: ns, ms => by
    obtain ⟨t, ht⟩ := join_prefix sep (m :: ns) ms
    rw [List.cons_append, List.cons_append, join_cons_cons, join_cons_cons]
    exact ⟨t, by rw [← List.cons_append, ← ht]; simp⟩

end Text

namespace Path

theorem text_ofLocation (l : Location) : (ofLocation l).text = '/' :: Text.join ['/'] l := by
  simp [text, ofLocation, Anchor.text]

theorem follow_append (here : Location) (ns ms : List Text) :
    follow here (ns ++ ms) = follow (follow here ns) ms := by
  simp [follow, List.foldl_append]

theorem follow_cons (here : Location) (n : Text) (ns : List Text) :
    follow here (n :: ns) = follow (follow here [n]) ns := follow_append here [n] ns

theorem follow_singleton (here : Location) {n : Text} (hn : n ≠ []) (hdot : n ≠ dot) (hdots : n ≠ dotDot) :
    follow here [n] = here ++ [n] := by
  simp [follow, hn, hdot, hdots]

theorem follow_dotDot (here : Location) : follow here [dotDot] = here.dropLast := rfl

/-- Plain names lead straight down. -/
theorem follow_of_plain : ∀ (here : Location) {ns : List Text}, (∀ n ∈ ns, PlainName n) →
    follow here ns = here ++ ns
  | here, [], _ => by simp [follow]
  | here, n :: ns, h => by
    obtain ⟨hn, hdot, hdots, -⟩ := h n List.mem_cons_self
    rw [follow_cons, follow_singleton here hn hdot hdots,
      follow_of_plain _ fun m hm => h m (List.mem_cons_of_mem _ hm)]
    simp

/-- Names without slashes lead to a place with plain names. -/
theorem plain_follow : ∀ {here : Location} {ns : List Text}, (∀ n ∈ here, PlainName n) →
    (∀ n ∈ ns, '/' ∉ n) → ∀ n ∈ follow here ns, PlainName n
  | here, [], hhere, _ => by simpa [follow] using hhere
  | here, m :: ns, hhere, hns => by
    rw [follow_cons]
    refine plain_follow ?_ fun n hn => hns n (List.mem_cons_of_mem _ hn)
    by_cases hm : m = [] ∨ m = dot
    · simpa [follow, hm] using hhere
    · obtain ⟨hnil, hdot⟩ := not_or.mp hm
      by_cases hdots : m = dotDot
      · rw [hdots, follow_dotDot]
        exact fun n hn => hhere n (List.dropLast_subset here hn)
      · rw [follow_singleton here hnil hdot hdots]
        intro n hn
        rcases List.mem_append.mp hn with hn | hn
        · exact hhere n hn
        · obtain rfl := List.mem_singleton.mp hn
          exact ⟨hnil, hdot, hdots, hns n List.mem_cons_self⟩

end Path

/-! ### File systems of the same shape -/

namespace Store

/-- The same entries stand at the same places, but that regular files may differ. -/
def SameShape (s s' : Store) : Prop :=
  ∀ l, s'.get? l = s.get? l ∨ ∃ f f', s.get? l = some (.file f) ∧ s'.get? l = some (.file f')

theorem SameShape.refl (s : Store) : SameShape s s := fun _ => Or.inl rfl

section

variable {s s' : Store} (h : SameShape s s')

include h

theorem SameShape.walkNames_eq (follow : Bool)
    (jump? : Option (Location → List Text → Except LookupError Location)) :
    ∀ (names : List Text) (here : Location),
      s'.walkNames follow jump? here names = s.walkNames follow jump? here names
  | [], _ => rfl
  | name :: rest, here => by
    have ih := SameShape.walkNames_eq follow jump? rest
    rw [walkNames, walkNames]
    rcases h here with hhere | ⟨f, f', hf, hf'⟩
    · rw [hhere, ih here, ih here.dropLast]
      rcases h (here ++ [name]) with hnext | ⟨f, f', hf, hf'⟩
      · rw [hnext, ih]
      · rw [hf, hf', ih]
    · rw [hf, hf']

theorem SameShape.walk_eq (follow : Bool) : ∀ links, s'.walk follow links = s.walk follow links
  | 0 => funext fun here => funext fun names => h.walkNames_eq follow none names here
  | links + 1 => by
    rw [walk, walk, SameShape.walk_eq follow links]
    exact funext fun here => funext fun names => h.walkNames_eq follow _ names here

theorem SameShape.lookup_eq (cwd : Location) (follow : Bool) (path : Text) :
    s'.lookup cwd follow path = s.lookup cwd follow path := by
  rw [lookup, lookup, h.walk_eq]

/-- A path leads to the same entry in both, or to a regular file at the same place. -/
theorem SameShape.entryAt_cases (cwd : Location) (follow : Bool) (path : Text) :
    s'.entryAt cwd follow path = s.entryAt cwd follow path ∨
      ∃ l f f', s.entryAt cwd follow path = .ok (l, .file f) ∧
        s'.entryAt cwd follow path = .ok (l, .file f') := by
  unfold entryAt
  rw [h.lookup_eq]
  cases s.lookup cwd follow path with
  | error e => exact Or.inl rfl
  | ok l =>
    rcases h l with hl | ⟨f, f', hf, hf'⟩
    · exact Or.inl (by simp only [hl])
    · exact Or.inr ⟨l, f, f', by simp only [hf], by simp only [hf']⟩

end

/-! ### Places without links -/

/-- No link stands on the way to the place, nor at it. -/
def Unlinked (s : Store) (l : Location) : Prop := ∀ n target, s.get? (l.take n) ≠ some (.link target)

theorem unlinked_nil (s : Store) : s.Unlinked [] := by simp [Unlinked, get?]

theorem Unlinked.get?_ne {s : Store} {l : Location} (h : s.Unlinked l) (target : Text) :
    s.get? l ≠ some (.link target) := by
  simpa using h l.length target

theorem Unlinked.take {s : Store} {l : Location} (h : s.Unlinked l) (k : Nat) : s.Unlinked (l.take k) := by
  intro n target
  rw [List.take_take]
  exact h _ target

theorem Unlinked.dropLast {s : Store} {l : Location} (h : s.Unlinked l) : s.Unlinked l.dropLast := by
  rw [List.dropLast_eq_take]
  exact h.take _

theorem Unlinked.concat {s : Store} {l : Location} (h : s.Unlinked l) {name : Text}
    (hname : ∀ target, s.get? (l ++ [name]) ≠ some (.link target)) : s.Unlinked (l ++ [name]) := by
  intro n target
  by_cases hn : n ≤ l.length
  · rw [List.take_append_of_le_length hn]
    exact h n target
  · rw [List.take_of_length_le (by simp; omega)]
    exact hname target

theorem SameShape.unlinked {s s' : Store} (h : SameShape s s') {l : Location} (hl : s.Unlinked l) :
    s'.Unlinked l := by
  intro n target heq
  rcases h (l.take n) with hsame | ⟨f, f', hf, hf'⟩
  · exact hl n target (hsame ▸ heq)
  · rw [hf'] at heq
    exact absurd heq (by simp)

/-- A way along which no link stands is walked name by name, whatever follows it. -/
theorem walkNames_append {s : Store} {follow : Bool}
    {jump? : Option (Location → List Text → Except LookupError Location)} {ys : List Text} {m : Location} :
    ∀ {xs : List Text} {here : Location}, (∀ n, s.Unlinked (Path.follow here (xs.take n))) →
      s.walkNames follow jump? here (xs ++ ys) = .ok m →
        (∀ follow' jump', s.walkNames follow' jump' here xs = .ok (Path.follow here xs)) ∧
          s.walkNames follow jump? (Path.follow here xs) ys = .ok m
  | [], here, _, h => ⟨fun _ _ => rfl, h⟩
  | x :: xs, here, hlinks, h => by
    have hstep : ∀ n, s.Unlinked (Path.follow (Path.follow here [x]) (xs.take n)) := by
      intro n
      have := hlinks (n + 1)
      rwa [List.take_succ_cons, Path.follow_cons] at this
    have hnext : s.Unlinked (Path.follow here [x]) := by simpa using hlinks 1
    rw [List.cons_append, walkNames] at h
    rw [Path.follow_cons]
    cases hhere : s.get? here with
    | none => rw [hhere] at h; exact absurd h (by simp)
    | some e =>
      cases e with
      | file f => rw [hhere] at h; exact absurd h (by simp)
      | link t => rw [hhere] at h; exact absurd h (by simp)
      | directory =>
        simp only [hhere] at h
        simp only [walkNames, hhere]
        by_cases hdot : x = [] ∨ x = dot
        · have hx : Path.follow here [x] = here := by simp [Path.follow, hdot]
          simp only [if_pos hdot, hx] at h hstep ⊢
          exact walkNames_append hstep h
        simp only [if_neg hdot] at h ⊢
        by_cases hdots : x = dotDot
        · have hx : Path.follow here [x] = here.dropLast := by rw [hdots, Path.follow_dotDot]
          simp only [if_pos hdots, hx] at h hstep ⊢
          exact walkNames_append hstep h
        simp only [if_neg hdots] at h ⊢
        by_cases hsize : Utf8.size x > maxNameSize
        · rw [if_pos hsize] at h
          exact absurd h (by simp)
        simp only [if_neg hsize] at h ⊢
        have hx := Path.follow_singleton here (not_or.mp hdot).1 (not_or.mp hdot).2 hdots
        rw [hx] at hstep hnext ⊢
        cases hentry : s.get? (here ++ [x]) with
        | none => rw [hentry] at h; exact absurd h (by simp)
        | some e =>
          cases e with
          | link t => exact absurd hentry (hnext.get?_ne t)
          | file f =>
            simp only [hentry] at h ⊢
            exact walkNames_append hstep h
          | directory =>
            simp only [hentry] at h ⊢
            exact walkNames_append hstep h

/-- A single name leads one step down, where a link at the end is not followed. -/
theorem walkNames_last {s : Store} {jump? : Option (Location → List Text → Except LookupError Location)}
    {here m : Location} {name : Text} (hnil : name ≠ []) (hdot : name ≠ dot) (hdots : name ≠ dotDot)
    (h : s.walkNames false jump? here [name] = .ok m) : m = here ++ [name] := by
  rw [walkNames] at h
  split at h
  · rw [if_neg (not_or.mpr ⟨hnil, hdot⟩), if_neg hdots] at h
    split at h
    · exact absurd h (by simp)
    · split at h
      · exact absurd h (by simp)
      · simpa [eq_comm] using h
      · simpa [walkNames, eq_comm] using h
  · exact absurd h (by simp)
  · exact absurd h (by simp)

theorem entryAt_eq_ok {s : Store} {cwd l : Location} {follow : Bool} {path : Text} {e : Entry} :
    s.entryAt cwd follow path = .ok (l, e) ↔ s.lookup cwd follow path = .ok l ∧ s.get? l = some e := by
  unfold entryAt
  cases s.lookup cwd follow path with
  | error e => simp
  | ok m =>
    dsimp only
    cases hm : s.get? m with
    | none =>
      refine ⟨by simp, ?_⟩
      rintro ⟨⟨rfl⟩, h⟩
      rw [hm] at h
      exact absurd h (by simp)
    | some e' =>
      constructor
      · rintro ⟨rfl, rfl⟩
        exact ⟨rfl, hm⟩
      · rintro ⟨⟨rfl⟩, h⟩
        rw [Option.some.inj (hm.symm.trans h)]

/-- What the system refuses before it looks anything up. -/
def Acceptable (path : Text) : Prop := '\x00' ∉ path ∧ Utf8.size path ≤ maxPathSize

theorem lookup_ok_iff {s : Store} {cwd m : Location} {follow : Bool} {path : Text} (hne : path ≠ []) :
    s.lookup cwd follow path = .ok m ↔ Acceptable path ∧
      s.walk follow maxLinks (if path.head? = some '/' then [] else cwd) path.splitSlash = .ok m := by
  unfold lookup Acceptable
  by_cases hnull : '\x00' ∈ path
  · simp [hnull]
  · by_cases hsize : Utf8.size path > maxPathSize
    · simp [hnull, hne, hsize, Nat.not_le.mpr hsize]
    · simp [hnull, hne, hsize, Nat.not_lt.mp hsize]

end Store

/-! ### Paths in the course of being resolved -/

namespace Path

/-- The place that the names of a path start from. -/
def base (cwd : Location) (p : Path) : Location := if p.anchor = .here then cwd else []

/-- A path that is being resolved: a proper one, on whose way no link stands. -/
structure Sound (s : Store) (cwd : Location) (p : Path) : Prop where
  anchored : p.anchor = .here ∨ p.anchor = .root
  named : ∀ n ∈ p.names, n ≠ [] ∧ '/' ∉ n
  unlinked : ∀ k, s.Unlinked (follow (p.base cwd) (p.names.take k))

/-- A proper path is looked up name by name. -/
theorem lookup_text_iff {s : Store} {cwd m : Location} {follow : Bool} {p : Path}
    (hanchor : p.anchor = .here ∨ p.anchor = .root) (hnames : ∀ n ∈ p.names, n ≠ [] ∧ '/' ∉ n)
    (hne : p.names ≠ []) :
    s.lookup cwd follow p.text = .ok m ↔ Store.Acceptable p.text ∧
      s.walkNames follow (some (s.walk follow 39)) (p.base cwd) p.names = .ok m := by
  have hsplit := Text.splitSlash_join hne fun n hn => (hnames n hn).2
  obtain ⟨n, ns, hns⟩ := List.exists_cons_of_ne_nil hne
  rcases hanchor with hhere | hroot
  · have htext : p.text = Text.join ['/'] p.names := by simp [text, hhere, hne, Anchor.text]
    obtain ⟨c, u, hn⟩ := List.exists_cons_of_ne_nil (hnames n (by simp [hns])).1
    have hc : c ≠ '/' := fun hc => (hnames n (by simp [hns])).2 (by simp [hn, hc])
    have hhead : ∃ u, p.text = c :: u := by
      rw [htext, hns, hn]
      cases ns with
      | nil => exact ⟨u, by simp [Text.join, List.intercalate]⟩
      | cons m ms => exact ⟨_, Text.join_cons_cons ['/'] _ _ _⟩
    obtain ⟨u, hu⟩ := hhead
    have hbase : p.base cwd = if p.text.head? = some '/' then [] else cwd := by
      rw [base, if_pos hhere, if_neg (by simpa [hu] using hc)]
    rw [Store.lookup_ok_iff (by simp [hu]), ← hbase, show p.text.splitSlash = p.names from htext ▸ hsplit]
    exact Iff.rfl
  · have htext : p.text = '/' :: Text.join ['/'] p.names := by simp [text, hroot, Anchor.text]
    have hslash : p.text.splitSlash = [] :: p.names := by
      rw [htext, Text.splitSlash, if_pos rfl, hsplit]
    have hbase : p.base cwd = if p.text.head? = some '/' then [] else cwd := by
      rw [base, if_neg (by simp [hroot]), htext, List.head?_cons, if_pos rfl]
    rw [Store.lookup_ok_iff (by simp [htext]), hslash, ← hbase, base, if_neg (by simp [hroot])]
    exact Iff.rfl

section

variable {s : Store} {cwd : Location} {p : Path} (hp : p.Sound s cwd)

include hp

theorem Sound.entry {name : Text} (hnil : name ≠ []) (hdot : name ≠ dot) (hdots : name ≠ dotDot)
    (hslash : '/' ∉ name) {m : Location} {e : Entry}
    (h : s.entryAt cwd false (p.entry name).text = .ok (m, e)) (he : ∀ target, e ≠ .link target) :
    (p.entry name).Sound s cwd := by
  have hnamed : ∀ n ∈ (p.entry name).names, n ≠ [] ∧ '/' ∉ n := by
    intro n hn
    rcases List.mem_append.mp hn with hn | hn
    · exact hp.named n hn
    · rw [List.mem_singleton.mp hn]
      exact ⟨hnil, hslash⟩
  obtain ⟨hlookup, hget⟩ := Store.entryAt_eq_ok.mp h
  obtain ⟨-, hwalk⟩ :=
    (lookup_text_iff (p := p.entry name) hp.anchored hnamed (by simp [Path.entry])).mp hlookup
  obtain ⟨-, hlast⟩ := Store.walkNames_append hp.unlinked hwalk
  have hm := Store.walkNames_last hnil hdot hdots hlast
  refine ⟨hp.anchored, hnamed, fun k => ?_⟩
  change s.Unlinked (follow (p.base cwd) ((p.names ++ [name]).take k))
  by_cases hk : k ≤ p.names.length
  · rw [List.take_append_of_le_length hk]
    exact hp.unlinked k
  · rw [List.take_of_length_le (by simp; omega), follow_append, follow_singleton _ hnil hdot hdots]
    refine Store.Unlinked.concat (by simpa using hp.unlinked p.names.length) fun target htarget => ?_
    rw [← hm, hget] at htarget
    exact he target (Option.some.inj htarget)

theorem Sound.up : p.up.Sound s cwd := by
  have hdots : (p.entry dotDot).Sound s cwd := by
    refine ⟨hp.anchored, fun n hn => ?_, fun k => ?_⟩
    · rcases List.mem_append.mp hn with hn | hn
      · exact hp.named n hn
      · rw [List.mem_singleton.mp hn]
        exact ⟨by decide, by decide⟩
    · change s.Unlinked (follow (p.base cwd) ((p.names ++ [dotDot]).take k))
      by_cases hk : k ≤ p.names.length
      · rw [List.take_append_of_le_length hk]
        exact hp.unlinked k
      · rw [List.take_of_length_le (by simp; omega), follow_append, follow_dotDot]
        exact Store.Unlinked.dropLast (by simpa using hp.unlinked p.names.length)
  unfold Path.up
  cases hlast : p.names.getLast? with
  | none =>
    have hnames : p.names = [] := List.getLast?_eq_none_iff.mp hlast
    dsimp only
    split
    · simpa [Path.entry, hnames] using hdots
    · exact hp
  | some name =>
    dsimp only
    split
    · exact hdots
    · refine ⟨hp.anchored, fun n hn => hp.named n (List.dropLast_subset _ hn), fun k => ?_⟩
      change s.Unlinked (follow (p.base cwd) (p.names.dropLast.take k))
      rw [List.dropLast_eq_take, List.take_take]
      exact hp.unlinked _

end

end Path

/-- Resolving strictly comes to an end, at a proper path without links. -/
def Resolves (s : Store) (cwd : Location)
    (replace : List Path → Path → List Text → Except ResolveError (Path × Bool)) : Prop :=
  ∀ active p names q ended, p.Sound s cwd → (∀ n ∈ names, '/' ∉ n) →
    replace active p names = .ok (q, ended) → q.Sound s cwd ∧ ended = true

theorem sound_root (s : Store) (cwd : Location) : (Path.ofLocation []).Sound s cwd where
  anchored := Or.inr rfl
  named := by simp [Path.ofLocation]
  unlinked k := by simpa [Path.ofLocation, Path.base, Path.follow] using s.unlinked_nil

theorem resolves_followNames {s : Store} {cwd : Location}
    {replace? : Option (List Path → Path → List Text → Except ResolveError (Path × Bool))}
    (hreplace : ∀ replace, replace? = some replace → Resolves s cwd replace) :
    Resolves s cwd (followNames s cwd true replace?) := by
  intro active p names q ended hp hnames h
  induction names generalizing p with
  | nil =>
    cases h
    exact ⟨hp, rfl⟩
  | cons name rest ih =>
    have ih := fun {p} hp => ih (p := p) hp fun n hn => hnames n (List.mem_cons_of_mem _ hn)
    rw [followNames] at h
    by_cases hdot : name = [] ∨ name = dot
    · rw [if_pos hdot] at h
      exact ih hp h
    rw [if_neg hdot] at h
    by_cases hdots : name = dotDot
    · rw [if_pos hdots] at h
      exact ih hp.up h
    rw [if_neg hdots] at h
    dsimp only at h
    have hentry := fun {m e} => hp.entry (m := m) (e := e) (not_or.mp hdot).1 (not_or.mp hdot).2 hdots
      (hnames name List.mem_cons_self)
    split at h
    · next target hlink =>
      by_cases hactive : active.contains (p.entry name) = true
      · rw [if_pos hactive, if_pos rfl] at h
        split at h <;> exact absurd h (by simp)
      · rw [if_neg hactive] at h
        cases hr : replace? with
        | none => rw [hr] at h; exact absurd h (by simp)
        | some replace =>
          rw [hr] at h
          obtain ⟨⟨q₁, ended₁⟩, hfirst, h⟩ := bind_eq_ok.mp h
          have hstart : (if target.head? = some '/' then Path.ofLocation [] else p).Sound s cwd := by
            split
            · exact sound_root s cwd
            · exact hp
          obtain ⟨hq₁, rfl⟩ := hreplace replace hr _ _ _ _ _ hstart
            (fun n hn => Text.no_slash_of_mem_splitSlash hn) hfirst
          rw [if_pos rfl, ← hr] at h
          exact ih hq₁ h
    · next found hnot hfound =>
      obtain ⟨m, e⟩ := found
      exact ih (hentry hfound fun target he => hnot m target (by rw [he])) h
    · next e herror =>
      rw [if_pos (Or.inl rfl)] at h
      exact absurd h (by simp)

theorem resolves_followLinks (s : Store) (cwd : Location) : ∀ depth,
    Resolves s cwd (followLinks s cwd true depth)
  | 0 => resolves_followNames (by simp)
  | depth + 1 => resolves_followNames fun replace h => by
    cases h
    exact resolves_followLinks s cwd depth

/-- However deep links may be inside one another, the names of a path are followed one by one. -/
theorem exists_followLinks_eq (s : Store) (cwd : Location) (strict : Bool) (depth : Nat) :
    ∃ replace?, followLinks s cwd strict depth = followNames s cwd strict replace? := by
  cases depth with
  | zero => exact ⟨none, rfl⟩
  | succ depth => exact ⟨some (followLinks s cwd strict depth), rfl⟩

/-- A place that its own names lead to, without links. -/
structure Store.Direct (s : Store) (l : Location) : Prop where
  plain : ∀ n ∈ l, PlainName n
  unlinked : s.Unlinked l

theorem Store.SameShape.direct {s s' : Store} (h : s.SameShape s') {l : Location} (hl : s.Direct l) :
    s'.Direct l :=
  ⟨hl.plain, h.unlinked hl.unlinked⟩

/-- The absolute form of a path is free of links, if that of the working directory is. -/
theorem direct_of_resolve {s : Store} {cwd : Location} (hcwd : s.Direct cwd) {p : Path}
    (hslash : ∀ n ∈ p.names, '/' ∉ n) {l : Location} (h : resolve s cwd true p = .ok l) : s.Direct l := by
  have hstart : (if p.anchor = .here then ⟨.here, []⟩ else Path.ofLocation [] : Path).Sound s cwd := by
    split
    · exact ⟨Or.inl rfl, by simp, fun k => by simpa [Path.base, Path.follow] using hcwd.unlinked⟩
    · exact sound_root s cwd
  obtain ⟨⟨q, ended⟩, hq, h⟩ := bind_eq_ok.mp h
  have hsound := (resolves_followLinks s cwd (linkDepth s) _ _ _ _ _ hstart hslash hq).1
  cases h
  constructor
  · refine Path.plain_follow ?_ fun n hn => (hsound.named n hn).2
    split
    · exact hcwd.plain
    · simp
  · simpa [Path.location, Path.base] using hsound.unlinked q.names.length

/-! ### Pages -/

namespace Path

theorem no_slash_of_mem_namesOf {t n : Text} (h : n ∈ namesOf t) : '/' ∉ n :=
  Text.no_slash_of_mem_splitSlash (List.mem_filter.mp h).1

theorem mem_of_expandHome? {homes : Homes} {p q : Path} (h : p.expandHome? homes = some q) {n : Text}
    (hn : n ∈ q.names) : n ∈ p.names ∨ ∃ t, n ∈ namesOf t := by
  unfold expandHome? at h
  split at h
  · next user rest _ hnames =>
    obtain ⟨home, -, rfl⟩ := Option.map_eq_some_iff.mp h
    rcases List.mem_append.mp hn with hn | hn
    · exact Or.inr ⟨home, hn⟩
    · exact Or.inl (by rw [hnames]; exact List.mem_cons_of_mem _ hn)
  · cases h
    exact Or.inl hn

theorem take_text_prefix (l : Location) (k : Nat) :
    (ofLocation (l.take k)).text <+: (ofLocation l).text := by
  rw [text_ofLocation, text_ofLocation]
  refine List.cons_prefix_cons.mpr ⟨rfl, ?_⟩
  have := Text.join_prefix ['/'] (l.take k) (l.drop k)
  rwa [List.take_append_drop] at this

end Path

namespace Store

/-- The beginnings of a path are no worse than the path. -/
theorem Acceptable.of_prefix {t u : Text} (hu : Acceptable u) (h : t <+: u) : Acceptable t := by
  obtain ⟨v, rfl⟩ := h
  constructor
  · exact fun hnull => hu.1 (List.mem_append_left v hnull)
  · have := hu.2
    simp only [Utf8.size, Utf8.encode, List.flatMap_append, List.length_append] at this ⊢
    omega

/-- A path that begins at the root means the same in every working directory. -/
theorem lookup_ofLocation_cwd (s : Store) (cwd l : Location) (follow : Bool) :
    s.lookup cwd follow (Path.ofLocation l).text = s.lookup [] follow (Path.ofLocation l).text := by
  rw [Path.text_ofLocation]
  simp [lookup]

/-- The place of a page: its own names lead to it, without links, and a regular file stands there. -/
structure Page (s : Store) (l : Location) : Prop extends s.Direct l where
  lookup_eq : s.lookup [] true (Path.ofLocation l).text = .ok l
  file : ∃ f, s.get? l = some (.file f)

/-- The way down to a place that its own names lead to. -/
theorem Direct.walk_of_lookup {s : Store} {l m : Location} (hl : s.Direct l) (hne : l ≠ []) {follow : Bool}
    (h : s.lookup [] follow (Path.ofLocation l).text = .ok m) :
    Acceptable (Path.ofLocation l).text ∧
      s.walkNames follow (some (s.walk follow 39)) [] l = .ok m :=
  (Path.lookup_text_iff (p := .ofLocation l) (Or.inr rfl)
    (fun n hn => ⟨(hl.plain n hn).ne_nil, (hl.plain n hn).no_slash⟩) hne).mp h

theorem Direct.follow_take {s : Store} {l : Location} (hl : s.Direct l) (k : Nat) :
    Path.follow [] (l.take k) = l.take k := by
  simpa using Path.follow_of_plain [] fun n hn => hl.plain n (List.mem_of_mem_take hn)

/-- All beginnings of the way down to a place can be walked, however links are treated. -/
theorem Direct.walk_take {s : Store} {l m : Location} (hl : s.Direct l) {follow : Bool}
    {jump? : Option (Location → List Text → Except LookupError Location)}
    (h : s.walkNames follow jump? [] l = .ok m) (k : Nat) :
    (∀ follow' jump', s.walkNames follow' jump' [] (l.take k) = .ok (l.take k)) ∧
      s.walkNames follow jump? (l.take k) (l.drop k) = .ok m := by
  have hlinks : ∀ n, s.Unlinked (Path.follow [] ((l.take k).take n)) := by
    intro n
    rw [List.take_take, hl.follow_take]
    exact hl.unlinked.take _
  have hwhole : s.walkNames follow jump? [] (l.take k ++ l.drop k) = .ok m := by rwa [List.take_append_drop]
  have hparts := walkNames_append hlinks hwhole
  rwa [hl.follow_take] at hparts

/-- The beginnings of a path that leads to its own place lead to their own places. -/
theorem Direct.lookup_take {s : Store} {l : Location} (hl : s.Direct l)
    (h : s.lookup [] true (Path.ofLocation l).text = .ok l) {k : Nat} (cwd : Location) (follow : Bool) :
    s.lookup cwd follow (Path.ofLocation (l.take k)).text = .ok (l.take k) := by
  rw [lookup_ofLocation_cwd]
  by_cases hk : l.take k = []
  · rw [hk]
    cases follow <;> rfl
  · have hne : l ≠ [] := by
      rintro rfl
      exact hk List.take_nil
    obtain ⟨haccept, hwalk⟩ := hl.walk_of_lookup hne h
    refine (Path.lookup_text_iff (p := .ofLocation (l.take k)) (Or.inr rfl) (fun n hn => ?_) hk).mpr
      ⟨haccept.of_prefix (Path.take_text_prefix l k), (hl.walk_take hwalk k).1 _ _⟩
    have hn := hl.plain n (List.mem_of_mem_take hn)
    exact ⟨hn.ne_nil, hn.no_slash⟩

/-- The way down to a place that its own names lead to is followed to its end. -/
theorem Direct.followNames_eq {s : Store} {l : Location} (hl : s.Direct l)
    (h : s.lookup [] true (Path.ofLocation l).text = .ok l) (cwd : Location)
    (replace? : Option (List Path → Path → List Text → Except ResolveError (Path × Bool))) :
    ∀ (rest : List Text) {before : Location}, before ++ rest = l →
      followNames s cwd false replace? [] (.ofLocation before) rest = .ok (.ofLocation l, true)
  | [], before, hbefore => by
    rw [← hbefore, List.append_nil]
    rfl
  | name :: rest, before, hbefore => by
    have hnext : before ++ [name] ++ rest = l := by simpa using hbefore
    obtain ⟨hnil, hdot, hdots, -⟩ := hl.plain name (by simp [← hbefore])
    have htake := List.prefix_iff_eq_take.mp ⟨rest, hnext⟩
    have hlookup := hl.lookup_take h (k := (before ++ [name]).length) cwd false
    have hunlinked := hl.unlinked.take (before ++ [name]).length
    rw [← htake] at hlookup hunlinked
    have ih := Direct.followNames_eq hl h cwd replace? rest hnext
    rw [followNames, if_neg (not_or.mpr ⟨hnil, hdot⟩), if_neg hdots]
    dsimp only [Path.entry, Path.ofLocation] at hlookup ⊢
    cases hget : s.get? (before ++ [name]) with
    | none =>
      have hentry : s.entryAt cwd false (Path.text ⟨.root, before ++ [name]⟩) = .error .missing := by
        simp only [entryAt, hlookup, hget]
      simp only [hentry, Bool.false_eq_true, reduceCtorEq, or_self, if_false]
      exact ih
    | some e =>
      have hentry := entryAt_eq_ok.mpr ⟨hlookup, hget⟩
      cases e with
      | link target => exact absurd hget (hunlinked.get?_ne target)
      | file | directory =>
        simp only [hentry]
        exact ih

/-- A place that its own names lead to is its own absolute form. -/
theorem Direct.resolve_eq {s : Store} {l : Location} (hl : s.Direct l)
    (h : s.lookup [] true (Path.ofLocation l).text = .ok l) (cwd : Location) :
    resolve s cwd false (.ofLocation l) = .ok l := by
  have hlocation : Path.location cwd (.ofLocation l) = l :=
    (Path.follow_of_plain [] hl.plain).trans (List.nil_append _)
  have hlookup := hl.lookup_take h (k := l.length) cwd true
  rw [List.take_length] at hlookup
  have hroot : (Path.ofLocation l).anchor ≠ .here := by simp [Path.ofLocation]
  have hnames : (Path.ofLocation l).names = l := rfl
  obtain ⟨replace?, hfollow⟩ := exists_followLinks_eq s cwd false (linkDepth s)
  simp only [resolve, if_neg hroot, hnames, hfollow, hl.followNames_eq h cwd replace? l (List.nil_append _),
    bind, Except.bind, hlocation, hlookup]
  rfl

namespace Page

variable {s : Store} {l : Location} (hl : s.Page l)

include hl

theorem ne_nil : l ≠ [] := by
  rintro rfl
  obtain ⟨f, hf⟩ := hl.file
  simp [get?] at hf

theorem lookup_take {k : Nat} (cwd : Location) (follow : Bool) :
    s.lookup cwd follow (Path.ofLocation (l.take k)).text = .ok (l.take k) :=
  hl.toDirect.lookup_take hl.lookup_eq cwd follow

/-- The path of a page leads to its file, from wherever it is looked up. -/
theorem entryAt_eq {f : File} (hf : s.get? l = some (.file f)) (cwd : Location) (follow : Bool) :
    s.entryAt cwd follow (Path.ofLocation l).text = .ok (l, .file f) := by
  have := hl.lookup_take (k := l.length) cwd follow
  rw [List.take_length] at this
  exact entryAt_eq_ok.mpr ⟨this, hf⟩

/-- The directory of a page is its own absolute form. -/
theorem resolve_parent (cwd : Location) :
    resolve s cwd false (Path.ofLocation l).parent = .ok l.dropLast := by
  have hdirect : s.Direct l.dropLast :=
    ⟨fun n hn => hl.plain n (List.dropLast_subset l hn), hl.unlinked.dropLast⟩
  refine hdirect.resolve_eq ?_ cwd
  rw [List.dropLast_eq_take]
  exact hl.lookup_take [] true

end Page

theorem SameShape.page {s s' : Store} (h : s.SameShape s') {l : Location} (hl : s.Page l) : s'.Page l where
  toDirect := h.direct hl.toDirect
  lookup_eq := by rw [h.lookup_eq, hl.lookup_eq]
  file := by
    rcases h l with hsame | ⟨f, f', -, hf'⟩
    · rw [hsame]
      exact hl.file
    · exact ⟨f', hf'⟩

end Store

/-- What has been checked of a path that is that of a page. -/
theorem of_resolvePage {s : Store} {cwd : Location} {homes : Path.Homes} {base : Path} {raw : Text}
    {l : Location} (h : resolvePage s cwd homes base raw = .ok l) :
    ∃ path, (Path.ofText raw).expandHome? homes = some path ∧
      (∀ part ∈ path.chain, s.isLink cwd part.text = false) ∧ resolve s cwd true path = .ok l ∧
        s.isFile cwd (Path.ofLocation l).text = true ∧ (Path.ofLocation l).isWithin base = true ∧
          (Path.ofLocation l).suffix.lower ∈ pageSuffixes := by
  unfold resolvePage at h
  split at h
  · exact absurd h (by simp)
  next path hpath =>
  split at h
  · exact absurd h (by simp)
  next hchecked =>
  split at h
  · exact absurd h (by simp)
  next l' hl' =>
  dsimp only at h
  split_ifs at h with hfile hwithin hsuffix
  cases h
  refine ⟨path, hpath, fun part hpart => ?_, hl', by simpa using hfile, by simpa using hwithin,
    by simpa using hsuffix⟩
  simpa using List.find?_eq_none.mp hchecked part hpart

/-- What a path is resolved to is the place of a page. -/
theorem page_of_resolvePage {s : Store} {cwd : Location} (hcwd : s.Direct cwd) {homes : Path.Homes}
    {base : Path} {raw : Text} {l : Location} (h : resolvePage s cwd homes base raw = .ok l) : s.Page l := by
  obtain ⟨path, hpath, -, hl, hfile, -, -⟩ := of_resolvePage h
  have hslash : ∀ n ∈ path.names, '/' ∉ n := by
    intro n hn
    rcases Path.mem_of_expandHome? hpath hn with hn | ⟨t, hn⟩ <;> exact Path.no_slash_of_mem_namesOf hn
  have hdirect := direct_of_resolve hcwd hslash hl
  unfold Store.isFile at hfile
  split at hfile
  · next m f hentry =>
    obtain ⟨hlookup, hget⟩ := Store.entryAt_eq_ok.mp hentry
    rw [Store.lookup_ofLocation_cwd] at hlookup
    have hne : l ≠ [] := by
      rintro rfl
      have hroot : s.lookup [] true (Path.ofLocation []).text = .ok [] := rfl
      cases hroot.symm.trans hlookup
      simp [Store.get?] at hget
    obtain ⟨-, hwalk⟩ := hdirect.walk_of_lookup hne hlookup
    have htake := (hdirect.walk_take hwalk l.length).2
    rw [List.drop_length, List.take_length] at htake
    cases htake
    exact ⟨hdirect, hlookup, f, hget⟩
  · exact absurd hfile (by simp)

/-! ### Settings in file systems of the same shape -/

namespace Store.SameShape

variable {s s' : Store} (h : s.SameShape s')

include h

/-- A path leads to the same entry in both unless it leads to a file that differs. -/
theorem entryAt_eq {cwd : Location} {follow : Bool} {path : Text}
    (hsame : ∀ l e, s.entryAt cwd follow path = .ok (l, e) → s'.get? l = s.get? l) :
    s'.entryAt cwd follow path = s.entryAt cwd follow path := by
  rcases h.entryAt_cases cwd follow path with heq | ⟨l, f, f', hf, hf'⟩
  · exact heq
  · have hget := hsame l _ hf
    rw [(entryAt_eq_ok.mp hf).2, (entryAt_eq_ok.mp hf').2] at hget
    rw [hf, hf', Option.some.inj hget]

theorem firstSettings_eq (denials : Denials) : ∀ {cs : List (Location × TableName)},
    (∀ c ∈ cs, ∀ l e, s.entryAt [] true (settingsPath c.1 c.2) = .ok (l, e) → s'.get? l = s.get? l) →
      firstSettings s' denials cs = firstSettings s denials cs
  | [], _ => rfl
  | c :: cs, hsame => by
    have hentry := h.entryAt_eq (hsame c List.mem_cons_self)
    rw [settingsPath] at hentry
    have htable : tableSettings s' denials c.1 c.2 = tableSettings s denials c.1 c.2 := by
      simp only [tableSettings, readTables, hentry]
    rw [firstSettings_cons, firstSettings_cons, htable,
      firstSettings_eq denials fun c hc => hsame c (List.mem_cons_of_mem _ hc)]

/-- The settings for a page are the same in both where they are read from files that do not differ. -/
theorem buildSettings_eq {cwd l : Location} (hl : s.Page l)
    (hsame : ∀ c ∈ candidates l.dropLast, ∀ m e,
      s.entryAt [] true (settingsPath c.1 c.2) = .ok (m, e) → s'.get? m = s.get? m)
    (denials : Denials) (overrides : List (Text × Value)) :
    buildSettings s' cwd denials (Path.ofLocation l).parent overrides =
      buildSettings s cwd denials (Path.ofLocation l).parent overrides := by
  simp only [buildSettings, loadSettings_of_resolve (hl.resolve_parent cwd),
    loadSettings_of_resolve ((h.page hl).resolve_parent cwd), h.firstSettings_eq denials hsame]

end Store.SameShape

end JspLayout
