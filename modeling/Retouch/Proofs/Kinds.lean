import Retouch.Proofs.Registrations
import Retouch.Proofs.RoundTrip
import Retouch.Proofs.Seats

/-!
# Kinds of collections

A collection takes its kind when it is built, from the nodes its paths stand on then, and nothing
that happens to the paths changes it. So in whatever way collections are built and trees are edited
(`Shelved`), a kind other than the one for any nodes is that of a path's node exactly if the last
seat that the path took since, if any, is on a node of that kind; and a method for a kind is seen by
the collections that carry this kind and by no others (`kind_until_replaced`).
-/

namespace Retouch

theorem Datum.isText_iff {s : String} {d : Datum} : d.isText s = true ↔ d = .text s := by
  unfold isText
  split
  · rename_i t
    rw [beq_iff_eq]
    exact ⟨fun h => h ▸ rfl, fun h => Scalar.text.inj (Datum.scalar.inj h)⟩
  · rename_i h
    exact ⟨nofun, fun he => absurd he (h s)⟩

namespace Collection

/-! ## Building -/

/-- A kind that is not the one for any nodes is that of all nodes found. -/
theorem kind_of_kindFor {found : List String} {asked kind : Datum}
    (h : kindFor found asked = .ok kind) (hk : kind ≠ .text anyKind) :
    ∀ k ∈ found, kind = .text k := by
  unfold kindFor at h
  split at h
  · cases h
    cases found with
    | nil => exact nofun
    | cons first rest =>
      rw [inferKind] at hk ⊢
      split_ifs at hk ⊢ with hall
      · intro k hmem
        rcases List.mem_cons.1 hmem with rfl | hmem
        · rfl
        · rw [beq_iff_eq.1 (List.all_eq_true.1 hall k hmem)]
      · exact absurd rfl hk
  · split_ifs at h with hany
    · cases h
      exact absurd (Datum.isText_iff.1 hany) hk
    · split at h
      · cases h
      · rename_i hnone
        cases h
        intro k hmem
        have := List.find?_eq_none.1 hnone k hmem
        exact Datum.isText_iff.1 (by simpa using this)

/-- The paths of the collection are there, and its kind fits their nodes. -/
structure Fits (d : Document) (c : Collection) : Prop where
  known : ∀ p ∈ c.paths, p < d.paths.size
  kind : c.kind ≠ .text anyKind → ∀ p ∈ c.paths, c.kind = .text (d.nodeAt p).kind

theorem fits_of_ofItems {d : Document} {c : Collection} {items : List Item} {methods : MethodsId}
    {printer : Printer} {parent : Option Collection} {kind : Datum}
    (h : ofItems d items methods printer parent kind = .ok c)
    (hp : ∀ p ∈ c.paths, p < d.paths.size) : c.Fits d := by
  unfold ofItems at h
  obtain ⟨paths, -, h⟩ := bind_eq_ok.1 h
  obtain ⟨kind', hkind, h⟩ := bind_eq_ok.1 h
  cases h
  exact ⟨hp, fun hk p hmem => kind_of_kindFor hkind hk _ (List.mem_map_of_mem hmem)⟩

theorem pathsOf_map_path : ∀ paths : List PathId, pathsOf (paths.map Item.path) = .ok paths
  | [] => rfl
  | p :: paths => by
    rw [List.map_cons, pathsOf, pathsOf_map_path paths]
    rfl

theorem paths_of_ofItems {d : Document} {c : Collection} {paths : List PathId}
    {methods : MethodsId} {printer : Printer} {parent : Option Collection} {kind : Datum}
    (h : ofItems d (paths.map Item.path) methods printer parent kind = .ok c) :
    c.paths = paths := by
  unfold ofItems at h
  rw [pathsOf_map_path, ok_bind] at h
  obtain ⟨kind', -, h⟩ := bind_eq_ok.1 h
  cases h
  rfl

/-- The collection is built in the document, which the functions handed over may change before the
kind is taken. -/
inductive Builds (d : Document) (c : Collection) : Document → Prop
  | items (items : List Item) (methods : MethodsId) (printer : Printer)
      (parent : Option Collection) (kind : Datum) :
      ofItems d items methods printer parent kind = .ok c → Builds d c d
  | derive (b : Collection) (items : List Item) (kind : Datum) :
      b.deriveItems d items kind = .ok c → Builds d c d
  | single (b : Collection) (index : Int) : b.single d index = .ok c → Builds d c d
  | slice (b : Collection) (start stop step : Option Int) :
      b.slice d start stop step = .ok c → Builds d c d
  | filter (b : Collection) (test : PathId → Edit Bool) {d' : Document} :
      perform (b.filter test) d = (.ok c, d') → Builds d c d'
  | map (b : Collection) (f : PathId → Edit (Option Input)) (kind : Datum) {d' : Document} :
      perform (b.map f kind) d = (.ok c, d') → Builds d c d'

/-- However a collection is built, it is that of its items in the document as it is then. -/
theorem Builds.fits {d d' : Document} {c : Collection} (h : Builds d c d')
    (hp : ∀ p ∈ c.paths, p < d'.paths.size) : c.Fits d' := by
  cases h with
  | items _ _ _ _ _ h => exact fits_of_ofItems h hp
  | derive _ _ _ h => exact fits_of_ofItems h hp
  | single _ _ h =>
    obtain ⟨p, -, h⟩ := bind_eq_ok.1 h
    exact fits_of_ofItems h hp
  | slice _ _ _ _ h =>
    unfold Collection.slice at h
    simp only at h
    split_ifs at h
    exact fits_of_ofItems h hp
  | filter _ _ h =>
    obtain ⟨kept, d₁, -, h⟩ := perform_bind_eq_ok.1 h
    rw [perform_bind_of_ok (perform_get d₁), perform_liftM] at h
    obtain ⟨hc, rfl⟩ := Prod.mk.inj h
    exact fits_of_ofItems hc hp
  | map _ _ _ h =>
    obtain ⟨found, d₁, -, h⟩ := perform_bind_eq_ok.1 h
    rw [perform_bind_of_ok (perform_get d₁), perform_liftM] at h
    obtain ⟨hc, rfl⟩ := Prod.mk.inj h
    exact fits_of_ofItems hc hp

end Collection

/-! ## Calling an entry point -/

/-- The nodes and paths handed over are there. -/
def Item.Known (d : Document) : Item → Prop
  | .node n => n < d.forest.size
  | .path p => p < d.paths.size
  | .text _ | .other _ => True

/-- The nodes and paths handed over are there. -/
def Input.Known (d : Document) : Input → Prop
  | .item i => i.Known d
  | .sequence _ items => ∀ i ∈ items, i.Known d

/-- The nodes and paths accepted are there. -/
def Accepted.Known (d : Document) : Accepted → Prop
  | .text _ => True
  | .node n => n < d.forest.size
  | .nodes ns => ∀ n ∈ ns, n < d.forest.size
  | .path p => p < d.paths.size
  | .paths ps => ∀ p ∈ ps, p < d.paths.size

theorem mem_of_mapM_eq_some {α β : Type} {f : α → Option β} : ∀ {items : List α} {found : List β},
    items.mapM f = some found → ∀ b ∈ found, ∃ a ∈ items, f a = some b
  | [], found, h => by
    cases h
    exact nofun
  | a :: items, found, h => by
    rw [List.mapM_cons] at h
    obtain ⟨b, hb, h⟩ := Option.bind_eq_some_iff.1 h
    obtain ⟨rest, hrest, h⟩ := Option.bind_eq_some_iff.1 h
    cases h
    intro b' hmem
    rcases List.mem_cons.1 hmem with rfl | hmem
    · exact ⟨a, List.mem_cons_self .., hb⟩
    · obtain ⟨a', ha', hf⟩ := mem_of_mapM_eq_some hrest b' hmem
      exact ⟨a', List.mem_cons_of_mem _ ha', hf⟩

theorem Input.Known.classify {d : Document} {input : Input} {accepted : Accepted}
    (h : input.Known d) (hc : input.classify = .ok accepted) : accepted.Known d := by
  unfold Input.classify at hc
  split at hc
  · cases hc
    trivial
  · cases hc
    exact h
  · cases hc
    exact h
  · cases hc
  · split at hc
    · rename_i ps hps
      cases hc
      intro p hp
      obtain ⟨i, hi, hpath⟩ := mem_of_mapM_eq_some hps p hp
      cases i <;> cases hpath
      exact h _ hi
    · split at hc
      · rename_i ns hns
        cases hc
        intro n hn
        obtain ⟨i, hi, hnode⟩ := mem_of_mapM_eq_some hns n hn
        cases i <;> cases hnode
        exact h _ hi
      · cases hc

namespace Work

variable {η α β : Type}

/-- The work leaves the method registries alone. -/
def Spares (x : Work η α) : Prop :=
  ∀ w, (perform x w).2.methods = w.methods

theorem Spares.bind {x : Work η α} {next : α → Work η β} (hx : Spares x)
    (hn : ∀ a, Spares (next a)) : Spares (x >>= next) := by
  intro w
  have hw := hx w
  rw [perform_bind]
  rcases hp : perform x w with ⟨e | a, w'⟩ <;> rw [hp] at hw
  · exact hw
  · exact (hn a w').trans hw

theorem spares_get : Spares (get : Work η (Workspace η)) := fun _ => rfl

theorem spares_ofExcept (outcome : Except Fault α) : Spares (ofExcept outcome : Work η α) := by
  intro w
  cases outcome <;> rfl

theorem spares_edit (x : Edit α) : Spares (edit x : Work η α) := by
  intro w
  unfold edit
  rw [perform_bind_of_ok (perform_get w), perform_bind_of_ok (perform_set w _)]
  rcases (perform x w.document).1 with e | a <;> rfl

theorem spares_log (e : Event) : Spares (log e : Work η Unit) := by
  refine spares_get.bind fun w => ?_
  split
  · exact fun _ => rfl
  · exact fun _ => rfl

theorem spares_loadGrammar (p : ParserId) : Spares (loadGrammar p : Work η Unit) := by
  refine Spares.bind (fun _ => rfl) fun parser => ?_
  split
  · refine spares_get.bind fun w => ?_
    split
    · exact fun _ => rfl
    · split
      · exact fun _ => rfl
      · exact fun _ => rfl
  · exact fun _ => rfl

theorem spares_parse (p : ParserId) (text : String) : Spares (parse p text : Work η NodeId) := by
  refine (spares_loadGrammar p).bind fun _ => Spares.bind (fun _ => rfl) fun parser =>
    spares_get.bind fun w => ?_
  split
  · exact fun _ => rfl
  · refine Spares.bind (fun _ => rfl) fun source => ?_
    split
    · exact fun _ => rfl
    · refine Spares.bind (fun _ => rfl) fun d => (spares_ofExcept _).bind fun planted => ?_
      exact Spares.bind (fun _ => rfl) fun _ => (spares_log _).bind fun _ _ => rfl

/-- The paths of an accepted input. -/
def pathsFor (p : ParserId) : Accepted → Work η (List PathId)
  | .text s => parse p s >>= fun root => edit (Edit.addRoot root) >>= fun q => pure [q]
  | .node n => edit (Edit.addRoot n) >>= fun q => pure [q]
  | .nodes ns => edit (ns.mapM Edit.addRoot)
  | .path q => pure [q]
  | .paths qs => pure qs

theorem normalize_eq (p : ParserId) (input : Input) :
    (normalize p input : Work η (List PathId)) =
      ofExcept input.classify >>= fun accepted => pathsFor p accepted >>= fun paths =>
        trace "normalize" "input_normalized"
          [("shape", .text accepted.shape), ("count", .int paths.length)] >>= fun _ =>
        pure paths := by
  unfold normalize
  congr 1
  funext accepted
  cases accepted <;> simp [pathsFor]

theorem spares_normalize (p : ParserId) (input : Input) :
    Spares (normalize p input : Work η (List PathId)) := by
  rw [normalize_eq]
  refine (spares_ofExcept _).bind fun accepted => Spares.bind ?_ fun paths =>
    (spares_log _).bind fun _ _ => rfl
  cases accepted with
  | text s =>
    exact (spares_parse p s).bind fun root => (spares_edit _).bind fun _ _ => rfl
  | node n => exact (spares_edit _).bind fun _ _ => rfl
  | nodes ns => exact spares_edit _
  | path | paths => exact fun _ => rfl

theorem spares_call (e : EntryPoint) (input : Input) :
    Spares (e.call input : Work η Collection) :=
  (spares_normalize e.parser input).bind fun _ => Spares.bind (fun _ => rfl) fun _ =>
    spares_ofExcept _

open Document

theorem parse_reworked {p : ParserId} {text : String} {w w' : Workspace η} {root : Nat}
    (hg : w.document.Grounded) (h : perform (parse p text) w = (.ok root, w')) :
    Reworked w.document [] w'.document ∧ root < w'.document.forest.size := by
  obtain ⟨stamp, parsed, g, -, hplant, hd⟩ := parse_eq_ok h
  have hr := SyntaxTree.rooted_of_plant hplant
  rw [hd]
  refine ⟨.nodes .refl hr.keeps (hr.closed hg.closed), ?_⟩
  have := parsed.root.count_pos
  rw [hr.root_eq, hr.size]
  omega

theorem addRoot_reworked {d₀ d : Document} {n : Nat} (h : Reworked d₀ [] d)
    (hn : n < d.forest.size) :
    Reworked d₀ [] (d.addRoot n).2 ∧ (d.addRoot n).2.paths.size = d.paths.size + 1 := by
  have hpath : Reworked d₀ [] (perform (Edit.addPath n none none) d).2 :=
    h.path none hn fun _ hp => nomatch hp
  exact ⟨hpath, Array.size_push _⟩

/-- New root paths are there, one for each node. -/
theorem addRoots_reworked {d₀ : Document} : ∀ {ns : List NodeId} {d : Document},
    Reworked d₀ [] d → (∀ n ∈ ns, n < d.forest.size) →
    ∃ qs d', perform (ns.mapM Edit.addRoot) d = (.ok qs, d') ∧ Reworked d₀ [] d' ∧
      d.paths.size ≤ d'.paths.size ∧ ∀ q ∈ qs, q < d'.paths.size
  | [], d, h, _ => ⟨[], d, rfl, h, le_rfl, nofun⟩
  | n :: ns, d, h, hn => by
    obtain ⟨hroot, hsize⟩ := addRoot_reworked h (hn n (List.mem_cons_self ..))
    obtain ⟨qs, d', hqs, hd', hle, hlt⟩ :=
      addRoots_reworked hroot fun m hm => hn m (List.mem_cons_of_mem _ hm)
    refine ⟨d.paths.size :: qs, d', ?_, hd', by omega, ?_⟩
    · have hfirst : perform (Edit.addRoot n) d = (.ok d.paths.size, (d.addRoot n).2) := rfl
      rw [List.mapM_cons, perform_bind_of_ok hfirst, perform_bind_of_ok hqs]
      rfl
    · intro q hq
      rcases List.mem_cons.1 hq with rfl | hq
      · exact Nat.lt_of_lt_of_le (hsize ▸ Nat.lt_succ_self _) hle
      · exact hlt q hq

theorem pathsFor_reworked {p : ParserId} {accepted : Accepted} {w w' : Workspace η}
    {paths : List PathId} (hg : w.document.Grounded) (ha : accepted.Known w.document)
    (h : perform (pathsFor p accepted) w = (.ok paths, w')) :
    Reworked w.document [] w'.document ∧ ∀ q ∈ paths, q < w'.document.paths.size := by
  have hone : ∀ {w₁ : Workspace η} {n : Nat}, Reworked w.document [] w₁.document →
      n < w₁.document.forest.size →
      perform (edit (Edit.addRoot n) >>= fun q => pure [q]) w₁ = (.ok paths, w') →
      Reworked w.document [] w'.document ∧ ∀ q ∈ paths, q < w'.document.paths.size := by
    intro w₁ n hw hn h
    obtain ⟨hd, hsize⟩ := addRoot_reworked hw hn
    have hroot : perform (Edit.addRoot n) w₁.document =
        (.ok w₁.document.paths.size, (w₁.document.addRoot n).2) := rfl
    rw [perform_bind_of_ok (perform_edit hroot)] at h
    cases h
    refine ⟨hd, fun q hq => ?_⟩
    rw [List.mem_singleton.1 hq]
    exact hsize ▸ Nat.lt_succ_self _
  cases accepted with
  | text s =>
    obtain ⟨root, w₁, hparse, h⟩ := perform_bind_eq_ok.1 h
    obtain ⟨hw, hroot⟩ := parse_reworked hg hparse
    exact hone hw hroot h
  | node n => exact hone .refl ha h
  | nodes ns =>
    obtain ⟨qs, d', hqs, hd', -, hlt⟩ := addRoots_reworked .refl ha
    unfold pathsFor at h
    rw [perform_edit hqs] at h
    cases h
    exact ⟨hd', hlt⟩
  | path q =>
    cases h
    exact ⟨.refl, fun q hq => List.mem_singleton.1 hq ▸ ha⟩
  | paths qs =>
    cases h
    exact ⟨.refl, ha⟩

/-- The collection of an input fits the document, into which a tree and root paths may have come. -/
theorem call_reworked {e : EntryPoint} {input : Input} {w w' : Workspace η} {c : Collection}
    (hg : w.document.Grounded) (hi : input.Known w.document)
    (h : perform (e.call input) w = (.ok c, w')) :
    Reworked w.document [] w'.document ∧ c.Fits w'.document := by
  unfold EntryPoint.call at h
  obtain ⟨paths, w₁, hn, h⟩ := perform_bind_eq_ok.1 h
  rw [normalize_eq] at hn
  obtain ⟨accepted, w₂, h₂, hn⟩ := perform_bind_eq_ok.1 hn
  rw [perform_ofExcept] at h₂
  obtain ⟨hclass, rfl⟩ := Prod.mk.inj h₂
  obtain ⟨paths', w₃, h₃, hn⟩ := perform_bind_eq_ok.1 hn
  obtain ⟨_, w₄, h₄, hn⟩ := perform_bind_eq_ok.1 hn
  cases hn
  obtain ⟨hd, hlt⟩ := pathsFor_reworked hg (hi.classify hclass) h₃
  rw [← log_document h₄] at hd hlt
  rw [perform_bind_of_ok (perform_document w₁), perform_ofExcept] at h
  obtain ⟨hc, rfl⟩ := Prod.mk.inj h
  refine ⟨hd, Collection.fits_of_ofItems hc ?_⟩
  rwa [Collection.paths_of_ofItems hc]

end Work

/-! ## Registries -/

namespace MethodRegistry

variable {η : Type} {r r' : MethodRegistry η}

/-- Every method stands where its kind says. -/
def Filed (r : MethodRegistry η) : Prop :=
  ∀ kind name m, r.cell kind name = some m → m.kind = kind

theorem filed_empty : (empty : MethodRegistry η).Filed := by
  intro kind name m h
  rw [cell_empty] at h
  cases h

theorem Filed.puts {kind : Option String} : ∀ {methods : List (String × η)}
    {r : MethodRegistry η}, r.Filed → (methods.foldl (fun r m => r.put kind m.1 m.2) r).Filed
  | [], _, h => h
  | (n, handler) :: rest, r, h => by
    refine Filed.puts (r := r.put kind n handler) fun kind' name m hm => ?_
    rw [cell_put] at hm
    split_ifs at hm with hk
    · cases hm
      exact hk.1
    · exact h kind' name m hm

theorem Filed.install (h : r.Filed) {methods : List (String × η)} {kind : Option String}
    (hi : r.install methods kind = .ok r') : r'.Filed := by
  obtain ⟨-, rfl⟩ := install_eq_ok.1 hi
  exact h.puts

/-- A method for a kind is seen by the collections that carry the kind. -/
theorem Filed.visible (h : r.Filed) {name kind : String} {carried : Datum} {m : Method η}
    (hv : r.visible name carried = some m) (hm : m.kind = some kind) : carried = .text kind := by
  have hgeneral : r.cell none name ≠ some m := by
    intro hc
    rw [h none name m hc] at hm
    cases hm
  unfold MethodRegistry.visible at hv
  split at hv
  · rename_i k
    rw [lookup_eq] at hv
    rcases Option.or_eq_some_iff.1 hv with hc | ⟨-, hc⟩
    · rw [h (some k) name m hc] at hm
      cases hm
      rfl
    · exact absurd hc hgeneral
  · exact absurd hv hgeneral

end MethodRegistry

theorem Work.visible_of_method {η : Type} {w : Workspace η} {c : Collection} {name : String}
    {m : Method η} (h : (perform (Work.method c name) w).1 = .ok m) :
    (w.methods.getD c.methods .empty).visible name c.kind = some m := by
  have hmethods : perform (Work.methods c.methods) w =
      (.ok (w.methods.getD c.methods .empty), w) := rfl
  unfold Work.method at h
  simp only at h
  by_cases hidden : MethodRegistry.isHidden name = true
  · rw [if_pos hidden] at h
    cases h
  · rw [if_neg hidden] at h
    split_ifs at h
    · cases h
    · rw [perform_bind_of_ok hmethods] at h
      split at h
      · rename_i found hfound
        cases h
        exact hfound
      · cases h

/-! ## Histories -/

/-- The seats taken are noted for every collection on the shelf. -/
def noted (seats : List Seat) (shelf : List (Collection × List Seat)) :
    List (Collection × List Seat) :=
  shelf.map fun entry => (entry.1, entry.2 ++ seats)

/-- The workspaces that come about, with the collections that were built on the way and the seats
that paths took since each was built. Collections are built by entry points, of items and from one
another. Between that texts are parsed, edits run, be it on every path of a collection, and methods
come and go; what leaves document and registries alone, as work that is refused, stands aside. -/
inductive Shelved {η : Type} : Workspace η → List (Collection × List Seat) → Prop
  | start {w : Workspace η} : w.document = .empty → w.methods = #[] → Shelved w []
  | parse {w w' : Workspace η} {shelf : List (Collection × List Seat)} {p : ParserId}
      {text : String} {root : NodeId} : Shelved w shelf →
      perform (Work.parse p text) w = (.ok root, w') → Shelved w' shelf
  | edit {w : Workspace η} {shelf : List (Collection × List Seat)} {α : Type} {x : Edit α}
      {seats : List Seat} : Shelved w shelf →
      w.document.Reworked seats (perform x w.document).2 →
      Shelved (perform (Work.edit x) w).2 (noted seats shelf)
  | call {w w' : Workspace η} {shelf : List (Collection × List Seat)} {e : EntryPoint}
      {input : Input} {c : Collection} : Shelved w shelf → input.Known w.document →
      perform (e.call input) w = (.ok c, w') → Shelved w' ((c, []) :: shelf)
  | build {w : Workspace η} {shelf : List (Collection × List Seat)} {c : Collection}
      {seats : List Seat} {d : Document} : Shelved w shelf → c.Builds w.document d →
      w.document.Reworked seats d → (∀ p ∈ c.paths, p < d.paths.size) →
      Shelved { w with document := d } ((c, []) :: noted seats shelf)
  | registry {w : Workspace η} {shelf : List (Collection × List Seat)} : Shelved w shelf →
      Shelved (perform Work.addMethods w).2 shelf
  | install {w : Workspace η} {shelf : List (Collection × List Seat)} (r : MethodsId)
      (methods : List (String × η)) (kind : Option String) : Shelved w shelf →
      Shelved (perform (Work.installMethods r methods kind) w).2 shelf
  | reset {w : Workspace η} {shelf : List (Collection × List Seat)} (r : MethodsId) :
      Shelved w shelf → Shelved (perform (Work.resetMethods r) w).2 shelf
  | aside {w w' : Workspace η} {shelf : List (Collection × List Seat)} : Shelved w shelf →
      w'.document = w.document → w'.methods = w.methods → Shelved w' shelf

/-- The collection fitted a document from which the seats have led to this one. -/
def Collection.Fitted (d : Document) (c : Collection) (since : List Seat) : Prop :=
  ∃ d₀ : Document, d₀.Grounded ∧ c.Fits d₀ ∧ d₀.Moved since d

namespace Collection.Fitted

variable {d d' : Document} {c : Collection} {since seats : List Seat}
  {shelf : List (Collection × List Seat)}

theorem now (hd : d.Grounded) (h : c.Fits d) : c.Fitted d [] :=
  ⟨d, hd, h, .refl d⟩

theorem later (h : c.Fitted d since) (hm : d.Moved seats d') : c.Fitted d' (since ++ seats) := by
  obtain ⟨d₀, hg, hf, hs⟩ := h
  exact ⟨d₀, hg, hf, hs.trans hm⟩

theorem of_noted (h : ∀ c since, (c, since) ∈ shelf → c.Fitted d since) (hm : d.Moved seats d')
    (hc : (c, since) ∈ noted seats shelf) : c.Fitted d' since := by
  obtain ⟨⟨c', since'⟩, hmem, he⟩ := List.mem_map.1 hc
  cases he
  exact (h _ _ hmem).later hm

/-- A kind is that of a path's node unless the path was seated on a node of another. -/
theorem kind_iff (h : c.Fitted d since) (hk : c.kind ≠ .text anyKind) {p : PathId}
    (hp : p ∈ c.paths) : c.kind = .text (d.nodeAt p).kind ↔
      ∀ n, lastSeat since p = some n → c.kind = .text (d.forest.node n).kind := by
  obtain ⟨d₀, hg, hf, hm⟩ := h
  have hlt := hf.known p hp
  rcases hs : lastSeat since p with _ | n
  · rw [hm.kind_of_unseated hg hlt hs]
    exact ⟨fun _ _ => nofun, fun _ => hf.kind hk p hp⟩
  · rw [hm.nodeAt_of_seated hlt hs]
    exact ⟨fun he m hn => Option.some.inj hn ▸ he, fun he => he n rfl⟩

end Collection.Fitted

/-- What holds all through a history: the collections on the shelf are accounted for, and so are the
methods in the registries. -/
structure Accounted {η : Type} (w : Workspace η) (shelf : List (Collection × List Seat)) :
    Prop where
  grounded : w.document.Grounded
  filed : ∀ r ∈ w.methods, r.Filed
  fitted : ∀ c since, (c, since) ∈ shelf → c.Fitted w.document since

namespace Accounted

variable {η : Type} {w w' : Workspace η} {shelf : List (Collection × List Seat)}

theorem reworked (h : Accounted w shelf) {seats : List Seat}
    (hx : w.document.Reworked seats w'.document) (hm : w'.methods = w.methods) :
    Accounted w' (noted seats shelf) := by
  obtain ⟨hg, hmoved⟩ := hx.moved h.grounded
  exact ⟨hg, hm ▸ h.filed, fun c since hc => .of_noted h.fitted hmoved hc⟩

theorem grown (h : Accounted w shelf) (hx : w.document.Reworked [] w'.document)
    (hm : w'.methods = w.methods) : Accounted w' shelf := by
  have hn := h.reworked hx hm
  unfold noted at hn
  simpa using hn

theorem built (h : Accounted w shelf) {c : Collection} (hc : c.Fits w.document) :
    Accounted w ((c, []) :: shelf) := by
  refine ⟨h.grounded, h.filed, fun c' since hmem => ?_⟩
  rcases List.mem_cons.1 hmem with he | hmem
  · cases he
    exact .now h.grounded hc
  · exact h.fitted c' since hmem

theorem filed_getD (h : Accounted w shelf) (r : MethodsId) : (w.methods.getD r .empty).Filed := by
  by_cases hr : r < w.methods.size
  · simp only [Array.getD, dif_pos hr]
    exact h.filed _ (Array.getElem_mem hr)
  · simp only [Array.getD, dif_neg hr]
    exact MethodRegistry.filed_empty

/-- One registry is put in the place of another. -/
theorem refiled (h : Accounted w shelf) (r : MethodsId) {reg : MethodRegistry η} (hr : reg.Filed)
    (hd : w'.document = w.document) (hm : w'.methods = w.methods.set! r reg) :
    Accounted w' shelf := by
  refine ⟨hd ▸ h.grounded, fun r' hr' => ?_, hd ▸ h.fitted⟩
  rw [hm, Array.set!_eq_setIfInBounds] at hr'
  rcases Array.mem_or_eq_of_mem_setIfInBounds hr' with hold | rfl
  · exact h.filed r' hold
  · exact hr

end Accounted

theorem Shelved.accounted {η : Type} {w : Workspace η} {shelf : List (Collection × List Seat)}
    (h : Shelved w shelf) : Accounted w shelf := by
  induction h with
  | start hd hm =>
    refine ⟨hd ▸ Document.grounded_empty, fun r hr => ?_, fun _ _ => nofun⟩
    rw [hm] at hr
    cases Array.not_mem_empty r hr
  | @parse w w' _ p text _ _ hp ih =>
    have hm := Work.spares_parse p text w
    rw [hp] at hm
    exact ih.grown (Work.parse_reworked ih.grounded hp).1 hm
  | edit _ hx ih => exact ih.reworked (Work.document_edit _ _ ▸ hx) (Work.spares_edit _ _)
  | @call w w' _ e input _ _ hi hc ih =>
    obtain ⟨hx, hf⟩ := Work.call_reworked ih.grounded hi hc
    have hm := Work.spares_call e input w
    rw [hc] at hm
    exact (ih.grown hx hm).built hf
  | @build w _ c seats d _ hb hx hp ih =>
    have hd : Accounted { w with document := d } _ := ih.reworked hx rfl
    exact hd.built (hb.fits hp)
  | @registry w _ _ ih =>
    refine ⟨ih.grounded, fun r hr => ?_, ih.fitted⟩
    rcases Array.mem_push.1 (show r ∈ w.methods.push .empty from hr) with hold | rfl
    · exact ih.filed r hold
    · exact MethodRegistry.filed_empty
  | @install w _ r methods kind _ ih =>
    rcases Work.installMethods_cases w r methods kind with ⟨e, -, hw⟩ | ⟨reg, j, hreg, hw⟩
    · rwa [hw]
    · rw [hw]
      exact ih.refiled r ((ih.filed_getD r).install hreg) rfl rfl
  | reset r _ ih => exact ih.refiled r MethodRegistry.filed_empty rfl rfl
  | aside _ hd hm ih => exact ⟨hd ▸ ih.grounded, hm ▸ ih.filed, hd ▸ ih.fitted⟩

/-- In every workspace that comes about, a collection whose kind is not the one for any nodes has it
in common with the node of a path exactly if the last seat that the path took since the collection
was built, if any, is on a node of that kind. A method for a kind is seen only by collections that
carry the kind, so their paths are of it but for those that took a seat on another. -/
theorem kind_until_replaced {η : Type} {w : Workspace η} {shelf : List (Collection × List Seat)}
    (h : Shelved w shelf) {c : Collection} {since : List Seat} (hc : (c, since) ∈ shelf) :
    (c.kind ≠ .text Collection.anyKind → ∀ p ∈ c.paths,
      (c.kind = .text (w.document.nodeAt p).kind ↔
        ∀ n, lastSeat since p = some n → c.kind = .text (w.document.forest.node n).kind)) ∧
    ∀ name m kind, (perform (Work.method c name) w).1 = .ok m → m.kind = some kind →
      c.kind = .text kind ∧ (kind ≠ Collection.anyKind → ∀ p ∈ c.paths,
        ((w.document.nodeAt p).kind = kind ↔
          ∀ n, lastSeat since p = some n → (w.document.forest.node n).kind = kind)) := by
  have ha := h.accounted
  have hf := ha.fitted c since hc
  refine ⟨fun hk p hp => hf.kind_iff hk hp, fun name m kind hm hkind => ?_⟩
  have hcarried := (ha.filed_getD c.methods).visible (Work.visible_of_method hm) hkind
  refine ⟨hcarried, fun hk p hp => ?_⟩
  have htext : ∀ {k : String}, Datum.text kind = .text k ↔ k = kind :=
    ⟨fun he => (Scalar.text.inj (Datum.scalar.inj he)).symm, fun he => he ▸ rfl⟩
  have hiff := hf.kind_iff (by rw [hcarried]; exact fun he => hk (htext.1 he).symm) hp
  rw [hcarried] at hiff
  simpa only [htext] using hiff

/-- Nothing made yet, and no registry. -/
def mixedStart : Workspace Unit :=
  ⟨.empty, .start "" default, ⟨[], fun _ _ => none⟩, #[], #[], #[], 0, #[]⟩

/-- A registry with a method for names and one for collections of any nodes. -/
def mixedMethods : Workspace Unit :=
  (perform (Work.installMethods 0 [("audit", ())] (some "node"))
    (perform (Work.installMethods 0 [("rename", ())] (some "name"))
      (perform Work.addMethods mixedStart).2).2).2

/-- Makes a pair of names, a number, and the paths of the pair and of its names. -/
def mixedTree : Edit (List PathId) := do
  let _ ← Edit.addNode (.leaf "name" "a" true)
  let _ ← Edit.addNode (.leaf "name" "b" true)
  let _ ← Edit.addNode (.branch "pair" [0, 1] [])
  let _ ← Edit.addNode (.leaf "number" "7" true)
  let _ ← Edit.addPath 2 none none
  Edit.childPaths 0

/-- The names, all of one kind. -/
def namesHeld : Collection := ⟨[1, 2], .text "name", 0, ⟨""⟩, none⟩

/-- The first of the names. -/
def firstHeld : Collection := ⟨[1], .text "name", 0, ⟨""⟩, some namesHeld⟩

/-- The workspace in which the collections are built. -/
def mixedPaths : Workspace Unit :=
  { mixedMethods with document := (perform mixedTree .empty).2 }

/-- The first name is replaced by the number. -/
def mixedWorkspace : Workspace Unit :=
  (perform (Work.edit (firstHeld.forEach fun p => discard (Edit.replace p [3]))) mixedPaths).2

/-- The same places after that. -/
def mixedHeld : Collection := ⟨[1, 2], .text "node", 0, ⟨""⟩, some namesHeld⟩

theorem reworked_mixedTree : Document.empty.Reworked [] (perform mixedTree .empty).2 := by
  have hfirst := Document.Reworked.act (.make (.leaf "name" "a" true)) (.refl (d := .empty))
    ⟨nofun, nofun⟩
  have hsecond := hfirst.act (.make (.leaf "name" "b" true)) ⟨nofun, nofun⟩
  have hpair := hsecond.act (.make (.branch "pair" [0, 1] [])) ⟨nofun, by decide⟩
  have hnumber := hpair.act (.make (.leaf "number" "7" true)) ⟨nofun, nofun⟩
  have hroot : Document.Reworked _ _ (perform (Edit.addPath 2 none none) _).2 :=
    hnumber.path none (by decide) fun _ hp => nomatch hp
  have hchildren := hroot.act (.childPaths 0) ⟨by rintro _ ⟨⟩; decide, trivial⟩
  unfold mixedTree
  iterate 4 rw [perform_bind_of_ok (Edit.perform_addNode _ _)]
  rw [perform_bind_of_ok (show perform (Edit.addPath 2 none none) _ = (.ok _, _) from rfl)]
  exact hchildren

theorem Shelved.hold {η : Type} {w : Workspace η} {shelf : List (Collection × List Seat)}
    (h : Shelved w shelf) {c : Collection} (hc : c.Builds w.document w.document)
    (hp : ∀ p ∈ c.paths, p < w.document.paths.size) : Shelved w ((c, []) :: noted [] shelf) :=
  h.build hc .refl hp

theorem shelved_mixed : Shelved mixedWorkspace
    [(mixedHeld, []), (firstHeld, [⟨1, 3⟩]), (namesHeld, [⟨1, 3⟩])] := by
  have hstart : Shelved mixedStart [] := .start rfl rfl
  have hmethods : Shelved mixedMethods [] := ((hstart.registry).install 0 _ _).install 0 _ _
  have hempty : mixedMethods.document = .empty := by
    rw [mixedMethods, Work.document_installMethods, Work.document_installMethods]
    rfl
  have hpaths : Shelved mixedPaths [] := by
    have htree : perform mixedTree mixedMethods.document = (.ok [1, 2], mixedPaths.document) := by
      rw [hempty]
      rfl
    have hedit := hmethods.edit (hempty.symm ▸ reworked_mixedTree)
    rw [Work.perform_edit htree] at hedit
    exact hedit
  have hnames : Shelved mixedPaths [(namesHeld, [])] :=
    hpaths.hold (.items [.path 1, .path 2] 0 ⟨""⟩ none .null rfl) (by decide +kernel)
  have hfirst : Shelved mixedPaths [(firstHeld, []), (namesHeld, [])] :=
    hnames.hold (.single namesHeld 0 rfl) (by decide +kernel)
  have hseat : mixedPaths.document.Reworked ((Act.replace 1 [3]).seats mixedPaths.document)
      ((Act.replace 1 [3]).after mixedPaths.document) :=
    Document.Reworked.refl.act (.replace 1 [3])
      ⟨by rintro _ ⟨⟩; decide +kernel, by decide +kernel⟩
  rw [show (Act.replace 1 [3]).seats mixedPaths.document = [⟨1, 3⟩] by decide +kernel] at hseat
  have hreplaced : Shelved mixedWorkspace [(firstHeld, [⟨1, 3⟩]), (namesHeld, [⟨1, 3⟩])] :=
    hfirst.edit hseat
  exact hreplaced.hold (.derive namesHeld [.path 1, .path 2] .null rfl) (by decide +kernel)

theorem kind_until_replaced_mixed : Shelved mixedWorkspace
      [(mixedHeld, []), (firstHeld, [⟨1, 3⟩]), (namesHeld, [⟨1, 3⟩])] ∧
    namesHeld.kind ≠ .text (mixedWorkspace.document.nodeAt 1).kind ∧
    namesHeld.kind = .text (mixedWorkspace.document.nodeAt 2).kind := by
  obtain ⟨hkind, -⟩ := kind_until_replaced shelved_mixed (.tail _ (.tail _ (.head _)))
  have hname : namesHeld.kind ≠ .text Collection.anyKind := by decide
  refine ⟨shelved_mixed, fun hstale => ?_, (hkind hname 2 (by decide)).2 fun n hn => nomatch hn⟩
  have hnumber : (mixedWorkspace.document.forest.node 3).kind = "number" := by decide +kernel
  have hseat := (hkind hname 1 (by decide)).1 hstale 3 (by decide)
  rw [hnumber] at hseat
  exact absurd hseat (by decide)

/-- A kind outlives the nodes that gave it: a collection of names whose only path stands on a number
still sees the method for names. And a method for the kind of any nodes is seen by a collection with
nodes of two other kinds. -/
theorem kind_outlives_replacement : Shelved mixedWorkspace
      [(mixedHeld, []), (firstHeld, [⟨1, 3⟩]), (namesHeld, [⟨1, 3⟩])] ∧
    (firstHeld.kind = .text "name" ∧ firstHeld.paths = [1] ∧
      (mixedWorkspace.document.nodeAt 1).kind = "number" ∧
      (perform (Work.method firstHeld "rename") mixedWorkspace).1.toOption.map Method.kind =
        some (some "name")) ∧
    mixedHeld.paths = [1, 2] ∧ (mixedWorkspace.document.nodeAt 2).kind = "name" ∧
    (perform (Work.method mixedHeld "audit") mixedWorkspace).1.toOption.map Method.kind =
      some (some "node") :=
  ⟨shelved_mixed, ⟨rfl, rfl, by decide +kernel, by decide +kernel⟩, rfl, by decide +kernel,
    by decide +kernel⟩

end Retouch
