import Mathlib.Data.List.Nodup
import Mathlib.Data.List.Perm.Subperm
import Mathlib.Data.List.ProdSigma
import JspLayout.Proofs.Confinement

/-! How deep links are inside one another.

    A path is resolved with a bound on how deep links may be inside one another. What is resolved of it so
    far is double dots and then plain names, none of them a link, and a link that is being replaced stands
    right below that. So its path is known from its place and from the number of double dots, and there are
    only so many of both. Main statement: the bound is never met (`followLinks_eq_of_linkDepth_le`). -/

namespace JspLayout

/-! ### The length of a path -/

theorem Text.two_mul_length_le_join : ∀ {ns : List Text}, (∀ n ∈ ns, n ≠ []) →
    2 * ns.length ≤ (join ['/'] ns).length + 1
  | [], _ => by simp
  | [n], h => by
    have := List.length_pos_of_ne_nil (h n List.mem_cons_self)
    simp only [join, List.intercalate, List.intersperse, List.flatten_cons, List.flatten_nil, List.append_nil,
      List.length_singleton]
    omega
  | n :: m :: ns, h => by
    have hn := List.length_pos_of_ne_nil (h n List.mem_cons_self)
    have ih := two_mul_length_le_join fun x hx => h x (List.mem_cons_of_mem n hx)
    rw [join_cons_cons]
    simp only [List.length_append, List.length_cons, List.length_nil] at ih ⊢
    omega

theorem Utf8.length_le_size : ∀ t : Text, t.length ≤ size t
  | [] => by simp
  | c :: t => by
    have ih := length_le_size t
    have hc : 0 < (String.utf8EncodeChar c).length := by
      rw [String.length_utf8EncodeChar]
      exact c.utf8Size_pos
    simp only [size, encode, List.flatMap_cons, List.length_append, List.length_cons] at ih ⊢
    omega

/-! ### What is resolved of a path -/

/-- Double dots that lead somewhere lead up one by one. -/
theorem Store.walked_dotDots {s : Store} {here m : Location} {follow : Bool}
    {jump? : Option (Location → List Text → Except LookupError Location)} :
    ∀ (n : Nat) {rest : List Text},
      s.walkNames follow jump? here (List.replicate n dotDot ++ rest) = .ok m →
        s.Walked here (List.replicate n dotDot)
  | 0, _, _ => s.walked_nil _
  | n + 1, rest, h => by
    rw [List.replicate_succ', List.append_assoc] at h
    have hway := Store.walked_dotDots n h
    rw [hway] at h
    rw [List.replicate_succ']
    exact hway.up (Store.directory_of_walkNames h)

namespace Path

/-- What is resolved of a path so far: double dots, then plain names, none of them a link. -/
inductive Settled (s : Store) (cwd : Location) : Path → Prop
  | root : Settled s cwd (.ofLocation [])
  | above (n : Nat) : Settled s cwd ⟨.here, List.replicate n dotDot⟩
  | entry {p : Path} {name : Text} (hp : Settled s cwd p) (hname : PlainName name)
      (hlink : ∀ m target, s.entryAt cwd false (p.entry name).text ≠ .ok (m, .link target)) :
      Settled s cwd (p.entry name)

/-- Double dots come first, and only where the path starts from the working directory. -/
def Dotted (p : Path) : Prop :=
  ∃ n ns, p.names = List.replicate n dotDot ++ ns ∧ (∀ x ∈ ns, PlainName x) ∧
    (p.anchor = .here ∨ p.anchor = .root ∧ n = 0)

theorem count_dotDot {n : Nat} {ns : List Text} (hplain : ∀ x ∈ ns, PlainName x) :
    (List.replicate n dotDot ++ ns).count dotDot = n := by
  have hns : ns.count dotDot = 0 := List.count_eq_zero.mpr fun h => (hplain _ h).ne_dotDot rfl
  rw [List.count_append, List.count_replicate_self, hns, Nat.add_zero]

theorem Dotted.entry {p : Path} (h : p.Dotted) {name : Text} (hname : PlainName name) :
    (p.entry name).Dotted := by
  obtain ⟨n, ns, hnames, hplain, hanchor⟩ := h
  refine ⟨n, ns ++ [name], by simp [Path.entry, hnames], fun x hx => ?_, hanchor⟩
  rcases List.mem_append.mp hx with hx | hx
  · exact hplain x hx
  · exact List.mem_singleton.mp hx ▸ hname

theorem Dotted.anchored {p : Path} (h : p.Dotted) : p.anchor = .here ∨ p.anchor = .root := by
  obtain ⟨n, ns, -, -, hanchor⟩ := h
  exact hanchor.imp_right And.left

theorem Dotted.named {p : Path} (h : p.Dotted) : ∀ n ∈ p.names, n ≠ [] ∧ '/' ∉ n := by
  obtain ⟨n, ns, hnames, hplain, -⟩ := h
  intro x hx
  rw [hnames] at hx
  rcases List.mem_append.mp hx with hx | hx
  · rw [List.eq_of_mem_replicate hx]
    exact ⟨by decide, by decide⟩
  · exact ⟨(hplain x hx).ne_nil, (hplain x hx).no_slash⟩

section

variable {s : Store} {cwd : Location} {p : Path} (hp : p.Settled s cwd)

include hp

theorem Settled.dotted : p.Dotted := by
  induction hp with
  | root => exact ⟨0, [], rfl, by simp, Or.inr ⟨rfl, rfl⟩⟩
  | above n => exact ⟨n, [], by simp, by simp, Or.inl rfl⟩
  | entry _ hname _ ih => exact ih.entry hname

theorem Settled.up : p.up.Settled s cwd := by
  cases hp with
  | root => exact .root
  | above n =>
    cases n with
    | zero => exact .above 1
    | succ n =>
      have hlast : (List.replicate (n + 1) dotDot).getLast? = some dotDot := by
        simp [List.getLast?_replicate]
      have hup : (⟨.here, List.replicate (n + 1) dotDot⟩ : Path).up =
          ⟨.here, List.replicate (n + 2) dotDot⟩ := by
        simp only [Path.up, hlast, if_true, Path.entry, List.replicate_succ' (n := n + 1)]
      rw [hup]
      exact .above (n + 2)
  | @entry p name h hname _ =>
    have hup : (p.entry name).up = p := by simp [Path.up, Path.entry, Path.parent, hname.ne_dotDot]
    rwa [hup]

/-- A path right below what is resolved is looked up name by name. -/
theorem Settled.lookup_entry_iff {name : Text} (hname : PlainName name) {m : Location} :
    s.lookup cwd false (p.entry name).text = .ok m ↔ Store.Acceptable (p.entry name).text ∧
      s.walkNames false (some (s.walk false 39)) (p.base cwd) (p.names ++ [name]) = .ok m := by
  have hdotted := hp.dotted.entry hname
  exact lookup_text_iff (p := p.entry name) hdotted.anchored hdotted.named (by simp [Path.entry])

/-- The names of what is resolved of a path are walked one by one, if a path below it can be looked up. -/
theorem Settled.walked {rest : List Text} {m : Location}
    (haccept : Store.Acceptable (text { p with names := p.names ++ rest }))
    (h : s.walkNames false (some (s.walk false 39)) (p.base cwd) (p.names ++ rest) = .ok m) :
    s.Walked (p.base cwd) p.names := by
  induction hp generalizing rest with
  | root => exact s.walked_nil _
  | above n => exact Store.walked_dotDots n h
  | @entry p name hp hname hlink ih =>
    simp only [Path.entry, List.append_assoc, List.singleton_append] at haccept h
    have hway : s.Walked (p.base cwd) p.names := ih haccept h
    have hdown := (hway _ _ _).symm.trans h
    obtain ⟨hdir, hsize, e, hentry⟩ := Store.walkNames_cons hname hdown
    refine hway.down hdir hname hsize hentry ?_
    -- a link there would be seen by the system, at the path that ends with it
    rintro target rfl
    have hprefix : (p.entry name).text <+: text { p with names := p.names ++ name :: rest } := by
      have hjoin := Text.join_prefix ['/'] (p.names ++ [name]) rest
      rw [List.append_assoc, List.singleton_append] at hjoin
      rw [text_of_names (by simp [Path.entry]), text_of_names (by simp)]
      exact (List.prefix_append_right_inj _).mpr hjoin
    have hlookup := (hp.lookup_entry_iff hname).mpr ⟨haccept.of_prefix hprefix,
      (hway _ _ _).trans (Store.walkNames_link hdir hname hsize hentry)⟩
    exact hlink _ target (Store.entryAt_eq_ok.mpr ⟨hlookup, hentry⟩)

end

/-! ### Links that are being replaced -/

/-- A link right below what is resolved of a path. -/
inductive LinkSite (s : Store) (cwd : Location) : Path → Prop
  | intro {p : Path} {name : Text} {m : Location} {target : Text} (hp : p.Settled s cwd)
      (hname : PlainName name) (hlink : s.entryAt cwd false (p.entry name).text = .ok (m, .link target)) :
      LinkSite s cwd (p.entry name)

/-- The number of double dots that a path starts with, one more of them where it starts from the working
    directory. -/
def rises (p : Path) : Nat := if p.anchor = .here then p.names.count dotDot + 1 else 0

section

variable {s : Store} {cwd : Location} {p q : Path} (hp : p.LinkSite s cwd)

include hp

theorem LinkSite.dotted : p.Dotted := by
  cases hp with
  | intro hp hname _ => exact hp.dotted.entry hname

/-- The place of the link is that of an entry. -/
theorem LinkSite.location_mem : p.location cwd ∈ s.entries.map Prod.fst := by
  cases hp with
  | @intro p name m target hp hname hlink =>
    obtain ⟨hlookup, hentry⟩ := Store.entryAt_eq_ok.mp hlink
    obtain ⟨haccept, hwalk⟩ := (hp.lookup_entry_iff hname).mp hlookup
    have hway := hp.walked haccept hwalk
    rw [hway] at hwalk
    have hm : (p.entry name).location cwd = m := by
      rw [Store.walkNames_last hname.ne_nil hname.ne_dot hname.ne_dotDot hwalk]
      exact (follow_append _ _ _).trans (follow_singleton _ hname.ne_nil hname.ne_dot hname.ne_dotDot)
    rw [hm]
    rw [Store.get?] at hentry
    split at hentry
    · exact absurd hentry (by simp)
    · obtain ⟨before, after, hentries, -⟩ := List.lookup_eq_some_iff.mp hentry
      simp [hentries]

theorem LinkSite.rises_lt : p.rises < maxPathSize := by
  have hnames := Text.two_mul_length_le_join fun n hn => (hp.dotted.named n hn).1
  have hsize : (Text.join ['/'] p.names).length ≤ maxPathSize := by
    cases hp with
    | @intro p name m target hp hname hlink =>
      obtain ⟨haccept, -⟩ := (hp.lookup_entry_iff hname).mp (Store.entryAt_eq_ok.mp hlink).1
      have hlength := Nat.le_trans (Utf8.length_le_size _) haccept.2
      rw [text_of_names (by simp [Path.entry]), List.length_append] at hlength
      omega
  have hcount : p.names.count dotDot ≤ p.names.length := List.count_le_length
  unfold rises
  unfold maxPathSize at hsize ⊢
  split <;> omega

/-- The place of the link and the double dots before it determine its path. -/
theorem LinkSite.ext (hq : q.LinkSite s cwd) (hlocation : p.location cwd = q.location cwd)
    (hrises : p.rises = q.rises) : p = q := by
  obtain ⟨n, ns, hnames, hplain, hanchor⟩ := hp.dotted
  obtain ⟨n', ns', hnames', hplain', hanchor'⟩ := hq.dotted
  rw [rises, rises, hnames, hnames', count_dotDot hplain, count_dotDot hplain'] at hrises
  obtain ⟨hsame, rfl⟩ : p.anchor = q.anchor ∧ n = n' := by
    rcases hanchor with h | ⟨h, rfl⟩ <;> rcases hanchor' with h' | ⟨h', rfl⟩ <;> rw [h, h'] at hrises ⊢
    · exact ⟨rfl, by simpa using hrises⟩
    · exact absurd hrises (by simp)
    · exact absurd hrises (by simp)
    · exact ⟨rfl, rfl⟩
  have hns : ns = ns' := by
    rw [location, location, hsame, hnames, hnames', follow_append, follow_append, follow_of_plain _ hplain,
      follow_of_plain _ hplain'] at hlocation
    exact List.append_cancel_left hlocation
  exact congrArg₂ Path.mk hsame (by rw [hnames, hnames', hns])

end

end Path

/-- Links that are being replaced are no more than the bound. -/
theorem length_le_linkDepth {s : Store} {cwd : Location} {ps : List Path} (hnodup : ps.Nodup)
    (hsites : ∀ p ∈ ps, p.LinkSite s cwd) : ps.length ≤ linkDepth s := by
  let places : List (Location × Nat) := s.entries.map Prod.fst ×ˢ List.range maxPathSize
  have hkeys : (ps.map fun p => (p.location cwd, p.rises)).Nodup := by
    refine (List.nodup_map_iff_inj_on hnodup).mpr fun p hp q hq h => ?_
    obtain ⟨hlocation, hrises⟩ := Prod.mk.inj h
    exact (hsites p hp).ext (hsites q hq) hlocation hrises
  have hsubset : (ps.map fun p => (p.location cwd, p.rises)) ⊆ places := by
    intro key hkey
    obtain ⟨p, hp, rfl⟩ := List.mem_map.mp hkey
    exact List.mem_product.mpr ⟨(hsites p hp).location_mem, List.mem_range.mpr (hsites p hp).rises_lt⟩
  calc ps.length = (ps.map fun p => (p.location cwd, p.rises)).length := (List.length_map _).symm
    _ ≤ places.length := (hkeys.subperm hsubset).length_le
    _ = linkDepth s := by
      simp only [places, List.length_product, List.length_map, List.length_range, linkDepth]

/-! ### The bound -/

section

variable {s : Store} {cwd : Location} {strict : Bool} {active : List Path}

/-- Names are followed alike with two ways to replace links that agree on the links not yet being replaced,
    and what is resolved of a path stays so. -/
theorem followNames_congr
    {replace? replace?' : Option (List Path → Path → List Text → Except ResolveError (Path × Bool))}
    (h : ∀ next ∉ active, next.LinkSite s cwd → ∀ p names, p.Settled s cwd → (∀ n ∈ names, '/' ∉ n) →
      (replace?.map fun replace => replace (next :: active) p names) =
          (replace?'.map fun replace => replace (next :: active) p names) ∧
        ∀ replace, replace? = some replace → ∀ q, replace (next :: active) p names = .ok (q, true) →
          q.Settled s cwd) :
    ∀ (names : List Text) {p : Path}, p.Settled s cwd → (∀ n ∈ names, '/' ∉ n) →
      followNames s cwd strict replace? active p names = followNames s cwd strict replace?' active p names ∧
        ∀ q, followNames s cwd strict replace? active p names = .ok (q, true) → q.Settled s cwd
  | [], p, hp, _ => ⟨rfl, fun q hq => by cases hq; exact hp⟩
  | name :: rest, p, hp, hnames => by
    have ih := fun {p : Path} (hp : p.Settled s cwd) =>
      followNames_congr h rest hp fun n hn => hnames n (List.mem_cons_of_mem _ hn)
    simp only [followNames]
    by_cases hdot : name = [] ∨ name = dot
    · simp only [if_pos hdot]
      exact ih hp
    simp only [if_neg hdot]
    by_cases hdots : name = dotDot
    · simp only [if_pos hdots]
      exact ih hp.up
    simp only [if_neg hdots]
    have hname : PlainName name :=
      ⟨(not_or.mp hdot).1, (not_or.mp hdot).2, hdots, hnames name List.mem_cons_self⟩
    have hnext := hp.entry hname
    cases hentry : s.entryAt cwd false (p.entry name).text with
    | error e =>
      dsimp only
      split
      · exact ⟨rfl, by simp⟩
      · exact ih (hnext (by simp [hentry]))
    | ok found =>
      obtain ⟨m, e⟩ := found
      cases e with
      | file | directory => exact ih (hnext (by simp [hentry]))
      | link target =>
        dsimp only
        by_cases hactive : active.contains (p.entry name) = true
        · simp only [if_pos hactive]
          refine ⟨trivial, fun q hq => ?_⟩
          split at hq
          · split at hq <;> exact absurd hq (by simp)
          · exact absurd hq (by simp)
        simp only [if_neg hactive]
        have hstart : (if target.head? = some '/' then Path.ofLocation [] else p).Settled s cwd := by
          split
          · exact .root
          · exact hp
        obtain ⟨hsame, hsettled⟩ := h _ (by simpa using hactive) (.intro hp hname hentry) _ target.splitSlash
          hstart fun n hn => Text.no_slash_of_mem_splitSlash hn
        cases replace? with
        | none =>
          obtain rfl : replace?' = none := Option.map_eq_none_iff.mp hsame.symm
          exact ⟨rfl, by simp⟩
        | some replace =>
          obtain ⟨replace', rfl, hreplace⟩ := Option.map_eq_some_iff.mp hsame.symm
          simp only [hreplace]
          cases hfirst : replace (p.entry name :: active)
              (if target.head? = some '/' then Path.ofLocation [] else p) target.splitSlash with
          | error e => exact ⟨rfl, by simp [bind, Except.bind]⟩
          | ok found =>
            obtain ⟨q, ended⟩ := found
            cases ended with
            | false => exact ⟨rfl, by simp [bind, Except.bind]⟩
            | true => exact ih (hsettled replace rfl q hfirst)

/-- Where the bound is not yet met, one more level of links changes nothing. -/
theorem followLinks_succ : ∀ (depth : Nat) {active : List Path}, active.Nodup →
    (∀ a ∈ active, a.LinkSite s cwd) → linkDepth s ≤ depth + active.length →
      ∀ (names : List Text) {p : Path}, p.Settled s cwd → (∀ n ∈ names, '/' ∉ n) →
        followLinks s cwd strict (depth + 1) active p names = followLinks s cwd strict depth active p names ∧
          ∀ q, followLinks s cwd strict (depth + 1) active p names = .ok (q, true) → q.Settled s cwd
  | 0, active, hnodup, hsites, hdepth => by
    refine followNames_congr fun next hnext hsite => ?_
    have := length_le_linkDepth (List.nodup_cons.mpr ⟨hnext, hnodup⟩) (List.forall_mem_cons.mpr ⟨hsite, hsites⟩)
    simp only [List.length_cons] at this
    omega
  | depth + 1, active, hnodup, hsites, hdepth => by
    refine followNames_congr fun next hnext hsite p names hp hnames => ?_
    obtain ⟨hsame, hsettled⟩ := followLinks_succ depth (List.nodup_cons.mpr ⟨hnext, hnodup⟩)
      (List.forall_mem_cons.mpr ⟨hsite, hsites⟩) (by simp only [List.length_cons]; omega) names hp hnames
    refine ⟨congrArg some hsame, ?_⟩
    rintro _ ⟨rfl⟩ q hq
    exact hsettled q hq

/-- The bound on how deep links may be inside one another is never met: a larger one comes to the same, from
    the root, from the working directory and from whatever else is resolved. -/
theorem followLinks_eq_of_linkDepth_le {depth : Nat} (hdepth : linkDepth s ≤ depth) {p : Path}
    (hp : p.Settled s cwd) {names : List Text} (hnames : ∀ n ∈ names, '/' ∉ n) :
    followLinks s cwd strict depth [] p names = followLinks s cwd strict (linkDepth s) [] p names := by
  induction hdepth with
  | refl => rfl
  | @step depth hdepth ih =>
    obtain ⟨hmore, -⟩ := followLinks_succ depth List.nodup_nil (by simp) hdepth names hp hnames
    exact hmore.trans ih

end

end JspLayout
