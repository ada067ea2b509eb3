import RubyBinding.Proofs.Histories

/-!
# Entering a document that was taken out

`toDocument` takes a document out of a tree, `ofDocument` makes a tree of a document. Namespaces of
one name are merged on entry, so the tree of a document may be another than it says; but only once.
The document of a tree has no two members of a scope that would be merged (`Document.Merged`), and
such a document is entered as it stands: every entry becomes a declaration of its own, in the order
of the document (`Planted`). So the tree that is made of it has the same document (`Reenters`).
-/

namespace RubyBinding

namespace Document

/-- Whether two members of one scope are namespaces that are merged on entry. -/
def Clashes (d e : Document) : Prop :=
  d.kind.isNamespace ∧ e.kind.isNamespace ∧ d.name = e.name ∧ d.name ≠ ""

/-- Documents in which no members of a scope are merged on entry. -/
inductive Merged : Document → Prop
  | mk {name : String} {kind : Kind} {access : Access} {file : Option String}
      {children : List Document} (apart : children.Pairwise fun d e => ¬ d.Clashes e)
      (members : ∀ d ∈ children, Merged d) : Merged ⟨name, kind, access, file, children⟩

theorem headsOf_append (ds es : List Document) :
    headsOf (ds ++ es) = headsOf ds ++ headsOf es := by
  rw [headsOf_eq_flatMap, headsOf_eq_flatMap, headsOf_eq_flatMap, List.flatMap_append]

end Document

namespace DeclTree

open Document (headsOf)

variable {t u v : DeclTree} {i p : DeclId}

/-! ## Documents of trees -/

theorem name_toDocument (t : DeclTree) (i : DeclId) : (t.toDocument i).name = (t.get i).name := by
  rw [toDocument]

theorem kind_toDocument (t : DeclTree) (i : DeclId) : (t.toDocument i).kind = (t.get i).kind := by
  rw [toDocument]

theorem WellFormed.children_toDocument (h : WellFormed t) (i : DeclId) :
    (t.toDocument i).children = (t.children i).map t.toDocument := by
  rw [h.toDocument_eq]
  rfl

theorem self_mem_inside (t : DeclTree) (i : DeclId) : i ∈ t.inside i := by
  rw [inside]
  exact List.mem_cons_self

/-- Where namespaces are merged in a tree, they are in its documents. -/
theorem NamespacesMerged.toDocument (hm : NamespacesMerged t) (ht : WellFormed t) (i : DeclId) :
    (t.toDocument i).Merged := by
  induction i using ht.inwards.induction with
  | _ i ih =>
    rw [ht.toDocument_eq]
    refine .mk (List.pairwise_map.mpr ?_) (List.forall_mem_map.mpr ih)
    refine (ht.children_nodup i).pairwise_of_forall_ne ?_
    rintro c hc d hd hne ⟨hcn, hdn, hname, hnonempty⟩
    rw [kind_toDocument] at hcn hdn
    rw [name_toDocument, name_toDocument] at hname
    rw [name_toDocument] at hnonempty
    exact hne (hm i c hc d hd hcn hdn hname hnonempty)

/-- What is inside a declaration comes after it, so only that and the declaration itself matter for
its document. -/
theorem WellFormed.toDocument_congr (ht : WellFormed t) (hu : WellFormed u) (hi : i < t.size)
    (h : ∀ j, i ≤ j → j < t.size → u.get j = t.get j) :
    u.toDocument i = t.toDocument i ∧ u.inside i = t.inside i := by
  induction i using ht.inwards.induction with
  | _ i ih =>
    have hget : u.get i = t.get i := h i (Nat.le_refl i) hi
    have hchildren : u.children i = t.children i := congrArg Decl.children hget
    have hmembers : ∀ c ∈ t.children i,
        u.toDocument c = t.toDocument c ∧ u.inside c = t.inside c := by
      intro c hc
      obtain ⟨hic, hct⟩ := ht.lt_of_mem_children hc
      exact ih c hc hct fun j hj => h j (Nat.le_trans (Nat.le_of_lt hic) hj)
    constructor
    · rw [hu.toDocument_eq, ht.toDocument_eq, hget]
      exact congrArg (Document.mk _ _ _ _) (List.map_congr_left fun c hc => (hmembers c hc).1)
    · rw [hu.inside_eq, ht.inside_eq, hchildren]
      exact congrArg (i :: ·) (List.flatMap_congr fun c hc => (hmembers c hc).2)

/-! ## Planted documents -/

/-- Documents have been entered at the end of a scope: each entry is a declaration of its own, in
the order of the documents, and nothing else has changed. -/
structure Planted (t : DeclTree) (p : DeclId) (ds : List Document) (u : DeclTree) : Prop where
  size_eq : u.size = t.size + (headsOf ds).length
  get_eq : ∀ i < t.size, i ≠ p → u.get i = t.get i
  members : ∃ cs, u.get p = { t.get p with children := t.children p ++ cs } ∧
    cs.map u.toDocument = ds ∧ cs.flatMap u.inside = List.range' t.size (headsOf ds).length

theorem Planted.nil (t : DeclTree) (p : DeclId) : Planted t p [] t where
  size_eq := rfl
  get_eq := fun _ _ _ => rfl
  members := ⟨[], by rw [List.append_nil]; rfl, rfl, rfl⟩

/-- What was in a scope still has its documents, and those that were entered follow. -/
theorem Planted.map_toDocument {ds : List Document} (h : Planted t p ds u) (ht : WellFormed t)
    (hu : WellFormed u) :
    (u.children p).map u.toDocument = (t.children p).map t.toDocument ++ ds := by
  obtain ⟨cs, hget, hdocs, -⟩ := h.members
  have hchildren : u.children p = t.children p ++ cs := congrArg Decl.children hget
  rw [hchildren, List.map_append, hdocs]
  congr 1
  refine List.map_congr_left fun c hc => ?_
  obtain ⟨hpc, hct⟩ := ht.lt_of_mem_children hc
  exact (ht.toDocument_congr hu hct fun j hj hjt =>
    h.get_eq j hjt (Nat.ne_of_gt (Nat.lt_of_lt_of_le hpc hj))).1

theorem Planted.append {ds es : List Document} (htu : Planted t p ds u) (huv : Planted u p es v)
    (hp : p < t.size) (hu : WellFormed u) (hv : WellFormed v) : Planted t p (ds ++ es) v := by
  obtain ⟨cs, hget, hdocs, hinside⟩ := htu.members
  obtain ⟨cs', hget', hdocs', hinside'⟩ := huv.members
  -- What was entered first comes after the scope, which alone has changed since.
  have hkeep : ∀ c ∈ cs, v.toDocument c = u.toDocument c ∧ v.inside c = u.inside c := by
    intro c hc
    have hrange := List.mem_flatMap.mpr ⟨c, hc, self_mem_inside u c⟩
    rw [hinside, List.mem_range'_1, ← htu.size_eq] at hrange
    obtain ⟨htc, hcu⟩ := hrange
    exact hu.toDocument_congr hv hcu fun j hj hju =>
      huv.get_eq j hju (Nat.ne_of_gt (Nat.lt_of_lt_of_le hp (Nat.le_trans htc hj)))
  refine ⟨?_, ?_, cs ++ cs', ?_, ?_, ?_⟩
  · rw [huv.size_eq, htu.size_eq, Document.headsOf_append, List.length_append, Nat.add_assoc]
  · intro i hi hne
    have hiu : i < u.size := htu.size_eq ▸ Nat.lt_add_right _ hi
    rw [huv.get_eq i hiu hne, htu.get_eq i hi hne]
  · rw [hget', children, hget, List.append_assoc]
  · rw [List.map_append, hdocs', List.map_congr_left fun c hc => (hkeep c hc).1, hdocs]
  · rw [List.flatMap_append, hinside', List.flatMap_congr fun c hc => (hkeep c hc).2, hinside,
      htu.size_eq, Document.headsOf_append, List.length_append, List.range'_append_1]

/-! ## Entering a document as it stands -/

theorem get_modify_of_ne {j : DeclId} (hne : i ≠ j) (t : DeclTree) (change : Decl → Decl) :
    DeclTree.get ⟨t.decls.modify i change⟩ j = t.get j := by
  rw [get, Array.getElem?_modify, if_neg hne]
  rfl

theorem get_modify_self (hi : i < t.size) (change : Decl → Decl) :
    DeclTree.get ⟨t.decls.modify i change⟩ i = change (t.get i) := by
  have hget : t.decls[i]? = some t.decls[i] := Array.getElem?_eq_getElem hi
  rw [get, get, Array.getElem?_modify, if_pos rfl, hget]
  rfl

@[simp]
theorem size_adopt (t : DeclTree) (i : DeclId) (access : Access) (file : Option String) :
    (t.adopt i access file).size = t.size := by
  cases file <;> simp only [adopt] <;> split <;> simp

theorem get_adopt_of_ne {j : DeclId} (hne : i ≠ j) (t : DeclTree) (access : Access)
    (file : Option String) : (t.adopt i access file).get j = t.get j := by
  have haccess : (if access = .pub then t else t.setAccess i access).get j = t.get j := by
    split
    · rfl
    · exact get_modify_of_ne hne t _
  cases file with
  | none => exact haccess
  | some f => exact (get_modify_of_ne hne _ _).trans haccess

theorem get_adopt_self (hi : i < t.size) (haccess : (t.get i).access = .pub)
    (hfile : (t.get i).file = none) (access : Access) (file : Option String) :
    (t.adopt i access file).get i = { t.get i with access, file } := by
  have hset : (if access = .pub then t else t.setAccess i access).get i =
      { t.get i with access } := by
    split
    next hpub => rw [hpub, ← haccess]
    next => exact get_modify_self hi _
  have hsize : i < (if access = .pub then t else t.setAccess i access).size := by
    split
    · exact hi
    · rwa [size_setAccess]
  cases file with
  | none => exact hset.trans (by rw [← hfile])
  | some f => exact (get_modify_self hsize _).trans (by rw [hset])

/-- A new declaration with access level and file of a document. -/
theorem get_adopt_add (hp : p < t.size) (name : String) (kind : Kind) (access : Access)
    (file : Option String) :
    ((t.add p name kind).2.adopt t.size access file).get t.size =
      { id := t.size, name, kind, access, file, parent := some p } := by
  have hnew : t.size < (t.add p name kind).2.size := by
    rw [size_add]
    exact Nat.lt_succ_self _
  have hget : (t.add p name kind).2.get t.size =
      { id := t.size, name, kind, parent := some p } := by
    rw [get_add hp, if_neg (Nat.ne_of_gt hp), if_pos rfl]
  rw [get_adopt_self hnew (by rw [hget]) (by rw [hget]), hget]

/-- A new declaration for the head of a document, and what is planted in it. -/
theorem Planted.node {name : String} {kind : Kind} {access : Access} {file : Option String}
    {members : List Document} (hp : p < t.size) (hv : WellFormed v)
    (h : Planted ((t.add p name kind).2.adopt t.size access file) t.size members v) :
    Planted t p [⟨name, kind, access, file, members⟩] v := by
  have hsize : ((t.add p name kind).2.adopt t.size access file).size = t.size + 1 := by
    rw [size_adopt, size_add]
  have hold : ∀ i < t.size, v.get i = (t.add p name kind).2.get i := by
    intro i hi
    rw [h.get_eq i (hsize ▸ Nat.lt_succ_of_lt hi) (Nat.ne_of_lt hi),
      get_adopt_of_ne (Nat.ne_of_gt hi)]
  obtain ⟨cs, hget, hdocs, hinside⟩ := h.members
  rw [children, get_adopt_add hp, List.nil_append] at hget
  have hchildren : v.children t.size = cs := congrArg Decl.children hget
  have hlength : (headsOf [(⟨name, kind, access, file, members⟩ : Document)]).length =
      1 + (headsOf members).length := by
    rw [headsOf, headsOf, Document.heads, List.append_nil, List.length_cons, Nat.add_comm]
  refine ⟨?_, ?_, [t.size], ?_, ?_, ?_⟩
  · rw [h.size_eq, hsize, hlength, Nat.add_assoc]
  · intro i hi hne
    rw [hold i hi, get_add hp, if_neg hne, if_neg (Nat.ne_of_lt hi)]
  · rw [hold p hp, get_add hp, if_pos rfl]
  · rw [List.map_singleton, hv.toDocument_eq, hget]
    exact congrArg (fun ds => [Document.mk name kind access file ds]) hdocs
  · rw [List.flatMap_singleton, hv.inside_eq, hchildren, hinside, hsize, hlength, Nat.add_comm 1,
      List.range'_succ]

/-- A name that clashes with none of its scope is declared anew. -/
theorem declare_eq_add {d : Document} (h : ∀ c ∈ t.children p, ¬ (t.toDocument c).Clashes d) :
    t.declare p d.name d.kind = t.add p d.name d.kind := by
  cases hkind : d.kind with
  | nspace =>
    rcases nspace_cases t p d.name with ⟨c, hc, hns, hname, hne, -⟩ | ⟨-, hadd⟩
    · refine absurd ?_ (h c hc)
      rw [Document.Clashes, kind_toDocument, name_toDocument, hkind, hname]
      exact ⟨hns, rfl, rfl, hne⟩
    · exact hadd
  | _ => rfl

mutual

theorem Planted.insert {t : DeclTree} {p : DeclId} (ht : Built t) (hp : p < t.size) :
    (d : Document) → d.Merged → (∀ c ∈ t.children p, ¬ (t.toDocument c).Clashes d) →
      Planted t p [d] (t.insert p d).2
  | ⟨name, kind, access, file, children⟩, .mk apart members, hnew => by
    have hbuilt := (Entered.insert ht hp ⟨name, kind, access, file, children⟩).grown.built ht
    rw [DeclTree.insert, declare_eq_add hnew] at hbuilt ⊢
    have hhead := get_adopt_add hp name kind access file
    refine .node hp hbuilt.wellFormed (.insertAll ?_ ?_ children members ?_)
    · exact (Grown.adopt _ (Nat.ne_zero_of_lt hp) access file).built (ht.add hp name kind)
    · rw [size_adopt, size_add]
      exact Nat.lt_succ_self _
    · rw [DeclTree.children, hhead]
      exact apart

theorem Planted.insertAll {t : DeclTree} {p : DeclId} (ht : Built t) (hp : p < t.size) :
    (ds : List Document) → (∀ d ∈ ds, d.Merged) →
      ((t.children p).map t.toDocument ++ ds).Pairwise (fun d e => ¬ d.Clashes e) →
      Planted t p ds (t.insertAll p ds)
  | [], _, _ => by
    rw [DeclTree.insertAll]
    exact .nil t p
  | d :: ds, hmerged, hapart => by
    rw [DeclTree.insertAll]
    have hgrown : Grown t (t.insert p d).2 := (Entered.insert ht hp d).grown
    have hu : Built (t.insert p d).2 := hgrown.built ht
    have hp' : p < (t.insert p d).2.size := hgrown.lt_size hp
    have hv : Built ((t.insert p d).2.insertAll p ds) := (Grown.insertAll hu hp' ds).built hu
    obtain ⟨hd, hds⟩ := List.forall_mem_cons.mp hmerged
    have hfirst : Planted t p [d] (t.insert p d).2 := .insert ht hp d hd fun c hc =>
      (List.pairwise_append.mp hapart).2.2 _ (List.mem_map_of_mem hc) d List.mem_cons_self
    have hrest : Planted (t.insert p d).2 p ds ((t.insert p d).2.insertAll p ds) := by
      refine .insertAll hu hp' ds hds ?_
      rw [hfirst.map_toDocument ht.wellFormed hu.wellFormed, List.append_assoc]
      exact hapart
    exact hfirst.append hrest hp hu.wellFormed hv.wellFormed

end

/-! ## There and back -/

/-- Nothing that a tree grows by is noted at the global namespace. -/
theorem Grown.head_root (h : Grown t u) (ht : root < t.size) : u.head root = t.head root := by
  have add_head : ∀ {w : DeclTree} {p : DeclId}, Grown t w → p < w.size → ∀ name kind,
      (w.add p name kind).2.head root = w.head root := by
    intro w p hw hp name kind
    have hne : root ≠ w.size := Nat.ne_of_lt (hw.lt_size ht)
    have hread := apply_get_add (fun d => Document.mk d.name d.kind d.access d.file [])
      (fun _ _ => rfl) hp name kind root
    exact hread.trans (if_neg hne)
  induction h with
  | refl => rfl
  | add hw hp name _ ih => exact (add_head hw hp name _).trans ih
  | @nspace w hw p hp name ih =>
    rcases nspace_cases w p name with ⟨c, -, -, -, -, heq⟩ | ⟨-, heq⟩
    · rwa [heq]
    · rw [heq]
      exact (add_head hw hp name _).trans ih
  | @setAccess w _ i hi access ih =>
    rw [head, DeclTree.setAccess, get_modify_of_ne hi]
    exact ih
  | @setFile w _ i hi file ih =>
    rw [head, DeclTree.setFile, get_modify_of_ne hi]
    exact ih

theorem Grown.toDocument_root (h : Grown empty t) :
    t.toDocument root = ⟨"", .nspace, .pub, none, (t.children root).map t.toDocument⟩ := by
  obtain ⟨hname, hkind, haccess, hfile, -⟩ := Document.mk.inj (h.head_root Nat.zero_lt_one)
  rw [(h.built .empty).wellFormed.toDocument_eq]
  simp only [hname, hkind, haccess, hfile]
  rfl

/-- The document of a tree has an entry for each declaration. -/
theorem WellFormed.length_heads (h : WellFormed t) :
    (t.toDocument root).heads.length = t.size := by
  rw [h.heads_toDocument, List.length_map, h.inside_root_perm.length_eq, ids, List.length_range]

/-- What entering the document of a tree into an empty one gives. -/
structure Reenters (t : DeclTree) : Prop where
  size_eq : (ofDocument (t.toDocument root)).size = t.size
  toDocument_eq : (ofDocument (t.toDocument root)).toDocument root = t.toDocument root
  /-- The declarations are numbered as the document lists them, each before what is declared in
  it. -/
  inside_eq : (ofDocument (t.toDocument root)).inside root = (ofDocument (t.toDocument root)).ids

/-- A document in which nothing is merged is entered as it stands. -/
theorem Planted.of_merged {d : Document} (h : d.Merged) :
    Planted empty root d.children (ofDocument d) := by
  cases h with
  | mk apart members => exact .insertAll .empty Nat.zero_lt_one _ members apart

theorem Grown.reenters (h : Grown empty t) : Reenters t := by
  have ht : WellFormed t := (h.built .empty).wellFormed
  have hu : Grown empty (ofDocument (t.toDocument root)) :=
    Grown.insertAll .empty Nat.zero_lt_one _
  have hu' : WellFormed (ofDocument (t.toDocument root)) := (hu.built .empty).wellFormed
  have hplanted := Planted.of_merged ((h.namespacesMerged .empty .empty).toDocument ht root)
  have hmembers := hplanted.map_toDocument .empty hu'
  have hsame : (ofDocument (t.toDocument root)).toDocument root = t.toDocument root := by
    rw [hu.toDocument_root, hmembers, ht.children_toDocument, h.toDocument_root]
    rfl
  refine ⟨?_, hsame, ?_⟩
  · rw [← hu'.length_heads, hsame, ht.length_heads]
  · obtain ⟨cs, hget, -, hinside⟩ := hplanted.members
    have hchildren : (ofDocument (t.toDocument root)).children root = cs :=
      congrArg Decl.children hget
    rw [hu'.inside_eq, hchildren, hinside, ids, hplanted.size_eq, List.range_eq_range',
      Nat.add_comm]
    exact List.range'_succ.symm

/-! ## Sequences of changes -/

/-- Whether a step gives the global namespace neither an access level nor a file. -/
def Step.SparesRoot : Step → Prop
  | setAccess i _ | setFile i _ => i ≠ root
  | _ => True

theorem Grown.after (h : Grown empty t) {steps : List Step} (hv : Valid t steps)
    (htidy : ∀ s ∈ steps, s.Tidy) (hspares : ∀ s ∈ steps, s.SparesRoot) :
    Grown empty (t.after steps) := by
  induction steps generalizing t with
  | nil => exact h
  | cons s steps ih =>
    obtain ⟨htidy, htidys⟩ := List.forall_mem_cons.mp htidy
    obtain ⟨hspares, hspare⟩ := List.forall_mem_cons.mp hspares
    have hstep : Grown empty (s.apply t) := by
      rcases grown_of_step (h.built .empty) hv.1 with hs | hs | ⟨p, name, -, rfl⟩ |
        ⟨access, rfl⟩ | ⟨file, rfl⟩
      · exact h.trans hs
      · exact hs
      · cases htidy
      · exact absurd rfl hspares
      · exact absurd rfl hspares
    exact ih hstep hv.2 htidys hspare

/-- **Namespaces are merged once only.** The document of a tree, entered into an empty one, gives
the same document again. Namespaces must have been opened and not declared, and nothing noted at the
global namespace, whose access level and file are not entered. In particular, the document that the
tree of any document has comes back as it is. -/
theorem reenters_after {steps : List Step} (hv : Valid empty steps) (htidy : ∀ s ∈ steps, s.Tidy)
    (hspares : ∀ s ∈ steps, s.SparesRoot) :
    Reenters (empty.after steps) ∧ ∀ d, Reenters (ofDocument d) :=
  ⟨(Grown.refl.after hv htidy hspares).reenters,
    fun d => (Grown.insertAll .empty Nat.zero_lt_one d.children).reenters⟩

theorem reenters_after_eachStep :
    Valid empty eachStep ∧ (∀ s ∈ eachStep, s.Tidy) ∧ (∀ s ∈ eachStep, s.SparesRoot) ∧
      Reenters (empty.after eachStep) ∧ ∀ d, Reenters (ofDocument d) := by
  have hv : Valid empty eachStep := by decide +kernel
  have htidy : ∀ s ∈ eachStep, s.Tidy := by simp [eachStep, Step.Tidy, Kind.isNamespace]
  have hspares : ∀ s ∈ eachStep, s.SparesRoot := by simp [eachStep, Step.SparesRoot, root]
  exact ⟨hv, htidy, hspares, reenters_after hv htidy hspares⟩

end DeclTree

end RubyBinding
