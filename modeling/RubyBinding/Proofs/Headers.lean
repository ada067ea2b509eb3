import Mathlib.Data.List.Induction
import RubyBinding.Header.Reading
import RubyBinding.Proofs.Orderly

/-!
# Trees that are read from headers

Whatever a header says, it is entered in two ways only (`Reads`): something is declared that fits its
scope, and noted with the file, or a namespace is opened in a namespace. `reads_enter` follows the
recursion of the header syntax. It needs of that syntax only that fields stand in classes
(`Item.Placed`), which `readItem` sees to.

Both ways keep a tree orderly and leave what is there in its place, so the tree of several headers is
orderly, and each declaration in it tells its header (`readAll_invariant`).
-/

namespace RubyBinding

/-! ## What reading does -/

namespace Header

open DeclTree

variable {t u v : DeclTree} {name file : String} {kind : Kind} {scope : DeclId}

/-- What is declared and noted in a scope. -/
theorem get_addNoted (hs : scope < t.size) (file : String) (access : Access) (name : String)
    (kind : Kind) (i : DeclId) :
    (addNoted t file access scope name kind).2.get i =
      if i = scope then { t.get scope with children := t.children scope ++ [t.size] }
      else if i = t.size then
        { id := t.size, name, kind, access, parent := some scope, file := some file }
      else t.get i := by
  have hsize : t.size < (t.add scope name kind).2.size := by
    rw [size_add]
    exact Nat.lt_succ_self _
  have hnew : t.size ≠ scope := (Nat.ne_of_lt hs).symm
  have haddNoted : (addNoted t file access scope name kind).2 =
      ((t.add scope name kind).2.setAccess t.size access).setFile t.size file := rfl
  rw [haddNoted, setFile, get_modify _ (by rwa [size_setAccess]), setAccess, get_modify _ hsize,
    get_modify _ hsize, if_pos rfl, get_add hs, get_add hs, if_neg hnew, if_pos rfl]
  by_cases hi : i = t.size
  · have his : i ≠ scope := hi ▸ hnew
    rw [if_pos hi, if_neg his, if_pos hi]
  · simp only [hi, ↓reduceIte]

/-- What a tree may become by reading a header: declarations are noted with the file, and namespaces
are opened in namespaces. -/
inductive Reads (file : String) (t : DeclTree) : DeclTree → Prop
  | refl : Reads file t t
  | declare {u : DeclTree} (h : Reads file t u) {scope : DeclId} {name : String} {kind : Kind}
      (hfits : Fits u scope name kind) (hkind : kind.isNamespace = false) (access : Access) :
      Reads file t (addNoted u file access scope name kind).2
  | nspace {u : DeclTree} (h : Reads file t u) {scope : DeclId} (hs : scope < u.size)
      (hns : (u.get scope).isNamespace) {name : String} (hname : name ≠ "")
      (hq : isQualified name = false) : Reads file t (u.nspace scope name).2

theorem Reads.trans (htu : Reads file t u) (huv : Reads file u v) : Reads file t v := by
  induction huv with
  | refl => exact htu
  | declare _ hfits hkind access ih => exact ih.declare hfits hkind access
  | nspace _ hs hns hname hq ih => exact ih.nspace hs hns hname hq

theorem entered_addNoted (hs : scope < t.size) (file : String) (access : Access) (name : String)
    {kind : Kind} (hkind : kind.isNamespace = false) :
    Entered t (addNoted t file access scope name kind) :=
  have hadd := Entered.add hs name hkind
  hadd.then ((Grown.refl.setAccess hadd.ne_root access).setFile hadd.ne_root file)

theorem Reads.grown (h : Reads file t u) : Grown t u := by
  induction h with
  | refl => exact .refl
  | declare _ hfits hkind access ih =>
    exact ih.trans (entered_addNoted hfits.lt_size file access _ hkind).grown
  | nspace _ hs _ _ _ ih => exact ih.nspace hs _

/-- A scope that things can be declared in. -/
structure IsOpen (t : DeclTree) (scope : DeclId) : Prop where
  lt_size : scope < t.size
  isScope : (t.get scope).isNamespace ∨ (t.get scope).isRecord

/-- What a scope has one of under each name may be declared where there is none of it. -/
theorem fits_of_sole {isOne : Kind → Bool} (hs : IsOpen t scope) (hq : isQualified name = false)
    (hmem : isOne ∈ Kind.sole) (hone : isOne kind)
    (hnew : ∀ c ∈ t.children scope, isOne (t.get c).kind → (t.get c).name ≠ name) :
    Fits t scope name kind where
  lt_size := hs.lt_size
  suits := by
    obtain ⟨hfunction, hmethod, hctor, hfield⟩ := Kind.not_sole_of_member hmem hone
    exact
      { isScope := hs.isScope
        function := fun h => by rw [hfunction] at h; cases h
        member := fun h => by simp [hmethod, hctor, hfield] at h
        ctor := fun h => by rw [hctor] at h; cases h
        unqualified := fun _ => hq }
  fresh := by
    intro isOther hother hkind
    rwa [Kind.eq_of_sole hother hmem hkind hone]

theorem Reads.orderly (h : Reads file t u) (ht : Orderly t) : Orderly u := by
  induction h with
  | refl => exact ht
  | declare _ hfits _ access ih =>
    exact ((ih.add hfits).modify _ (fun d => { d with access }) (fun _ => rfl) (fun _ => rfl)
      (fun _ => rfl) (fun _ => rfl) (fun _ => rfl)).modify _ (fun d => { d with file := some file })
      (fun _ => rfl) (fun _ => rfl) (fun _ => rfl) (fun _ => rfl) (fun _ => rfl)
  | @nspace u _ scope hs hns name hname hq ih =>
    rcases nspace_cases u scope name with ⟨c, -, -, -, -, heq⟩ | ⟨hnew, heq⟩
    · rwa [heq]
    · rw [heq]
      exact ih.add (fits_of_sole ⟨hs, .inl hns⟩ hq List.mem_cons_self rfl (hnew hname))

theorem Reads.extends (h : Reads file t u) : Extends file t u := by
  induction h with
  | refl => exact .refl file t
  | @declare u _ scope name kind hfits hkind access ih =>
    have hsize : (addNoted u file access scope name kind).2.size = u.size + 1 := by
      exact (size_setFile _ _ _).trans ((size_setAccess _ _ _).trans (size_add u scope name kind))
    refine ih.trans (Extends.of_get hfits.lt_size hsize
      (get_addNoted hfits.lt_size file access name kind) ?_)
    rw [Decl.isNamespace, hkind, if_neg Bool.false_ne_true]
  | @nspace u _ scope hs _ name _ _ ih =>
    rcases nspace_cases u scope name with ⟨c, -, -, -, -, heq⟩ | ⟨-, heq⟩
    · rwa [heq]
    · rw [heq]
      exact ih.trans (Extends.of_get hs (size_add u scope name .nspace)
        (get_add hs name .nspace) rfl)

/-! ## Scopes that are read into -/

theorem Reads.isNamespace (h : Reads file t u) (hs : scope < t.size) :
    (u.get scope).isNamespace = (t.get scope).isNamespace :=
  h.extends.apply_get Decl.isNamespace (fun _ _ => rfl) hs

theorem Reads.isRecord (h : Reads file t u) (hs : scope < t.size) :
    (u.get scope).isRecord = (t.get scope).isRecord :=
  h.extends.apply_get Decl.isRecord (fun _ _ => rfl) hs

theorem Reads.isOpen (h : Reads file t u) (hs : IsOpen t scope) : IsOpen u scope where
  lt_size := Nat.lt_of_lt_of_le hs.lt_size h.extends.size_le
  isScope := by
    rw [h.isNamespace hs.lt_size, h.isRecord hs.lt_size]
    exact hs.isScope

/-- What `alreadyHas` denies may be declared. -/
theorem ne_of_alreadyHas {p : Kind → Bool} (h : alreadyHas t scope name p = false) :
    ∀ c ∈ t.children scope, p (t.get c).kind → (t.get c).name ≠ name := by
  intro c hc hp heq
  have hnot := List.any_eq_false.mp h c (List.mem_filter.mpr ⟨hc, beq_iff_eq.mpr heq⟩)
  exact hnot hp

/-- What a declarator may declare in a scope. -/
theorem declaredKind?_cases {specifiers : Specifiers} {isField : Bool} {text : String}
    {default : Option String} {d : Declared}
    (h : declaredKind? t scope specifiers isField text default name d = some kind) :
    isQualified name = false ∧
        ((∃ params, kind = .ctor params ∧ (t.get scope).isRecord ∧ name = (t.get scope).name) ∨
          (∃ result params flags, kind = .method result params flags ∧ (t.get scope).isRecord) ∨
          ∃ result params, kind = .function result params ∧ (t.get scope).isRecord = false) ∨
      isField ∧ ∃ ty isStatic isConst, kind = .field ty isStatic isConst := by
  simp only [declaredKind?, functionKind?] at h
  split at h
  · split at h
    · cases h
    · next hkeep =>
      simp only [Bool.or_eq_true, not_or, Bool.not_eq_true] at hkeep
      refine .inl ⟨hkeep.1.2, ?_⟩
      split at h
      · split at h
        · next hctor =>
          simp only [Bool.and_eq_true, beq_iff_eq] at hctor
          exact .inl ⟨_, (Option.some.inj h).symm, hctor.1, hctor.2.symm⟩
        · cases h
      · split at h
        · next hclass => exact .inr (.inl ⟨_, _, _, (Option.some.inj h).symm, hclass⟩)
        · next hclass =>
          exact .inr (.inr ⟨_, _, (Option.some.inj h).symm, Bool.eq_false_iff.mpr hclass⟩)
  · split at h
    · next hkeep =>
      simp only [Bool.and_eq_true] at hkeep
      exact .inr ⟨hkeep.1, _, _, _, (Option.some.inj h).symm⟩
    · cases h

/-- What suits a scope may be declared there if scopes may have several of its kind. -/
theorem fits_of_suits (hs : IsOpen t scope) (hsuits : Suits (t.get scope) name kind)
    (hns : kind.isNamespace = false) (hrecord : kind.isRecord = false)
    (henum : kind.isEnumeration = false) : Fits t scope name kind where
  lt_size := hs.lt_size
  suits := hsuits
  fresh := by
    intro isOne hmem hone
    rcases Kind.mem_sole_iff.mp hmem with rfl | rfl | rfl <;> simp_all

theorem fits_typedef (hs : IsOpen t scope) (name : String) (ty : Ty) :
    Fits t scope name (.typedef ty) :=
  fits_of_suits hs ⟨hs.isScope, nofun, by simp [Kind.isMethod, Kind.isCtor, Kind.isField], nofun,
    by simp [Kind.isNamespace, Kind.isRecord, Kind.isEnumeration, Kind.isFunction, Kind.isMethod,
      Kind.isCtor]⟩ rfl rfl rfl

/-- What a declarator declares suits the scope that its kind was chosen for. -/
theorem fits_of_declaredKind? (hs : IsOpen t scope) {specifiers : Specifiers} {isField : Bool}
    (hfield : isField → (t.get scope).isRecord) {text : String} {default : Option String}
    {d : Declared} (h : declaredKind? t scope specifiers isField text default name d = some kind) :
    Fits t scope name kind ∧ kind.isNamespace = false := by
  have absent : ∀ {P : Prop}, false = true → P := fun hno => absurd hno Bool.false_ne_true
  rcases declaredKind?_cases h with ⟨hq, ⟨ps, rfl, hclass, hname⟩ | ⟨ty, ps, flags, rfl, hclass⟩ |
    ⟨ty, ps, rfl, hclass⟩⟩ | ⟨hf, ty, isStatic, isConst, rfl⟩
  · exact ⟨fits_of_suits hs
      ⟨hs.isScope, absent, fun _ => hclass, fun _ => hname, fun _ => hq⟩ rfl rfl rfl, rfl⟩
  · exact ⟨fits_of_suits hs ⟨hs.isScope, absent, fun _ => hclass, absent, fun _ => hq⟩ rfl rfl rfl, rfl⟩
  · have hns : (t.get scope).isNamespace := hs.isScope.resolve_right (by simp [hclass])
    exact ⟨fits_of_suits hs ⟨hs.isScope, fun _ => hns,
      by simp [Kind.isMethod, Kind.isCtor, Kind.isField], absent, fun _ => hq⟩ rfl rfl rfl, rfl⟩
  · exact ⟨fits_of_suits hs ⟨hs.isScope, absent, fun _ => hfield hf, absent,
      by simp [Kind.isNamespace, Kind.isRecord, Kind.isEnumeration, Kind.isFunction, Kind.isMethod,
        Kind.isCtor]⟩ rfl rfl rfl, rfl⟩

/-! ## Declarations and members -/

theorem Reads.then (htu : Reads file t u) (hs : IsOpen t scope)
    (huv : IsOpen u scope → Reads file u v) : Reads file t v :=
  htu.trans (huv (htu.isOpen hs))

theorem reads_enterDeclarators (hs : IsOpen t scope) (file : String) (access : Access)
    (specifiers : Specifiers) {isField : Bool} (hfield : isField → (t.get scope).isRecord)
    (text : String) (default : Option String) (ds : List Declarator) :
    Reads file t (enterDeclarators t file access scope specifiers isField text default ds) := by
  induction ds generalizing t with
  | nil => exact .refl
  | cons d ds ih =>
    have hd : ∀ {u : DeclTree}, Reads file t u →
        Reads file t (enterDeclarators u file access scope specifiers isField text default ds) :=
      fun hu => hu.then hs fun hs' => ih hs' fun hf => by
        rw [hu.isRecord hs.lt_size]
        exact hfield hf
    refine hd ?_
    split
    · exact .refl
    · split
      · exact .refl
      · next hkind =>
        obtain ⟨hfits, hns⟩ := fits_of_declaredKind? hs hfield hkind
        exact Reads.refl.declare hfits hns access

theorem reads_enterTypedefs (hs : IsOpen t scope) (file : String) (access : Access) (ty : Ty)
    (isConst : Bool) (ds : List Declarator) :
    Reads file t (enterTypedefs t file access scope ty isConst ds) := by
  induction ds generalizing t with
  | nil => exact .refl
  | cons d ds ih =>
    refine Reads.then ?_ hs fun hs' => ih hs'
    split
    · exact .refl
    · exact Reads.refl.declare (fits_typedef hs _ _) rfl access

theorem reads_enterEnumeration (hs : IsOpen t scope) (file : String) (access : Access)
    (isScoped : Bool) (name : Option String) (values : List Enumerator) :
    Reads file t (enterEnumeration t file access scope isScoped name values) := by
  cases name with
  | none => exact .refl
  | some text =>
    simp only [enterEnumeration]
    split
    · exact .refl
    · next hnew =>
      have hfits : Fits t scope (lastSegment text) (.enumeration isScoped values) :=
        fits_of_sole hs (isQualified_lastSegment text) (by simp [Kind.sole]) rfl
          (ne_of_alreadyHas (Bool.eq_false_iff.mpr hnew))
      exact Reads.refl.declare hfits rfl access

/-- A class that was declared is open for its members. -/
theorem isOpen_addNoted_record (hs : scope < t.size) (file : String) (access : Access)
    (name : String) (isStruct : Bool) (bases : List Base) :
    let r := addNoted t file access scope name (.record isStruct bases)
    IsOpen r.2 r.1 ∧ (r.2.get r.1).isRecord := by
  have hlt := (entered_addNoted hs file access name
    (rfl : (Kind.record isStruct bases).isNamespace = false)).lt_size
  have hclass : ((addNoted t file access scope name (.record isStruct bases)).2.get
      t.size).isRecord := by
    rw [get_addNoted hs, if_neg (Nat.ne_of_gt hs), if_pos rfl]
    rfl
  exact ⟨⟨hlt, .inr hclass⟩, hclass⟩

/-- A declaration of fields stands in a class. -/
def Declaration.Placed (around : Decl) : Declaration → Prop
  | .mk _ _ _ isField _ _ _ => isField → around.isRecord

/-- A member that declares fields stands in a class. -/
def Member.Placed (around : Decl) : Member → Prop
  | .declaration d => d.Placed around
  | _ => True

theorem Member.placed_of_isRecord {around : Decl} (h : around.isRecord) (m : Member) :
    m.Placed around := by
  cases m with
  | declaration d =>
    cases d
    exact fun _ => h
  | _ => trivial

mutual

theorem reads_enterDefinition {t : DeclTree} {scope : DeclId} (hs : IsOpen t scope)
    (file : String) (access : Access) (given : Option String)
    (hgiven : ∀ name ∈ given, isQualified name = false) :
    (d : Definition) → Reads file t (enterDefinition t file access scope given d)
  | .record isStruct name bases members => by
    rw [enterDefinition]
    split
    · exact .refl
    · next text hname =>
      split
      · exact .refl
      · next hnew =>
        have hq : isQualified text = false := by
          cases name with
          | none => exact hgiven text hname
          | some written =>
            cases hname
            exact isQualified_lastSegment written
        have hfits : Fits t scope text (.record isStruct bases) :=
          fits_of_sole hs hq (by simp [Kind.sole]) rfl (ne_of_alreadyHas (Bool.eq_false_iff.mpr hnew))
        obtain ⟨hopen, hclass⟩ :=
          isOpen_addNoted_record hs.lt_size file access text isStruct bases
        exact (Reads.refl.declare hfits rfl access).trans
          (reads_enterMembers hopen hclass file _ members)
  | .enumeration isScoped name values => by
    rw [enterDefinition]
    exact reads_enterEnumeration hs file access isScoped name values

theorem reads_enterDeclaration {t : DeclTree} {scope : DeclId} (hs : IsOpen t scope)
    (file : String) (access : Access) :
    (d : Declaration) → d.Placed (t.get scope) →
      Reads file t (enterDeclaration t file access scope d)
  | .mk none specifiers declarators isField default head body, hplaced => by
    rw [enterDeclaration]
    exact reads_enterDeclarators hs file access specifiers hplaced _ default declarators
  | .mk (some d) specifiers declarators isField default head body, hplaced => by
    rw [enterDeclaration]
    have hd := reads_enterDefinition hs file access none nofun d
    exact hd.then hs fun hs' =>
      reads_enterDeclarators hs' file access specifiers
        (fun hf => by rw [hd.isRecord hs.lt_size]; exact hplaced hf) _ default declarators

theorem reads_enterMember {t : DeclTree} {scope : DeclId} (hs : IsOpen t scope) (file : String)
    (access : Access) :
    (m : Member) → m.Placed (t.get scope) → Reads file t (enterMember t file access scope m)
  | .label _, _ => by
    rw [enterMember]
    exact .refl
  | .declaration d, hplaced => by
    rw [enterMember]
    exact reads_enterDeclaration hs file access d hplaced
  | .typedef definition specifiers declarators, _ => by
    have hnames : ∀ {u : DeclTree}, Reads file t u → Reads file t (match specifiers.base with
        | none => u
        | some ty => enterTypedefs u file access scope ty specifiers.isConst declarators) := by
      intro u hu
      cases specifiers.base with
      | none => exact hu
      | some ty =>
        exact hu.then hs fun hs' =>
          reads_enterTypedefs hs' file access ty specifiers.isConst declarators
    match definition with
    | some (.record isStruct name bases members) =>
      exact hnames (reads_enterDefinition hs file access (typedefName? declarators)
        (fun _ hname => isQualified_of_typedefName? hname) (.record isStruct name bases members))
    | some (.enumeration isScoped name values) => exact hnames .refl
    | none => exact hnames .refl
  | .synonym name spelling, _ => by
    rw [enterMember]
    exact Reads.refl.declare (fits_typedef hs name _) rfl access

theorem reads_enterMembers {t : DeclTree} {scope : DeclId} (hs : IsOpen t scope)
    (hclass : (t.get scope).isRecord) (file : String) (access : Access) :
    (ms : List Member) → Reads file t (enterMembers t file access scope ms)
  | [] => by
    rw [enterMembers]
    exact .refl
  | m :: ms => by
    unfold enterMembers
    have hm := reads_enterMember hs file access m (m.placed_of_isRecord hclass)
    exact hm.then hs fun hs' =>
      reads_enterMembers hs' (by rw [hm.isRecord hs.lt_size]; exact hclass) file _ ms

end

/-! ## Items -/

/-- A namespace that was opened in a namespace is there. -/
theorem isNamespace_nspace (hs : scope < t.size) (hname : name ≠ "") :
    (t.nspace scope name).1 < (t.nspace scope name).2.size ∧
      ((t.nspace scope name).2.get (t.nspace scope name).1).isNamespace := by
  rcases nspace_cases t scope name with ⟨c, -, hns, hcname, -, heq⟩ | ⟨-, heq⟩
  · rw [heq]
    refine ⟨Nat.lt_of_not_le fun hle => hname ?_, hns⟩
    rw [← hcname, get_of_size_le hle]
    rfl
  · rw [heq]
    refine ⟨by rw [size_add]; exact Nat.lt_succ_self _, ?_⟩
    have hid : (t.add scope name .nspace).1 = t.size := rfl
    rw [hid, get_add hs, if_neg (Nat.ne_of_gt hs), if_pos rfl]
    rfl

theorem reads_openNamespace (hs : scope < t.size) (hns : (t.get scope).isNamespace) (file : String)
    (parts : List String) (hparts : ∀ part ∈ parts, isQualified part = false) :
    Reads file t (openNamespace t scope parts).2 ∧
      (openNamespace t scope parts).1 < (openNamespace t scope parts).2.size ∧
      ((openNamespace t scope parts).2.get (openNamespace t scope parts).1).isNamespace := by
  induction t, scope, parts using openNamespace.induct with
  | case1 t scope => exact ⟨.refl, hs, hns⟩
  | case2 t scope parts ih =>
    rw [openNamespace]
    exact ih hs hns fun part hpart => hparts part (List.mem_cons_of_mem _ hpart)
  | case3 t scope part parts hne id u hopen ih =>
    obtain ⟨hq, hrest⟩ := List.forall_mem_cons.mp hparts
    have hpart := isNamespace_nspace (t := t) hs hne
    have hreads : Reads file t (t.nspace scope part).2 := Reads.refl.nspace hs hns hne hq
    rw [openNamespace.eq_3 _ _ _ _ hne]
    rw [hopen] at hpart hreads ⊢
    obtain ⟨hinner, hthere⟩ := ih hpart.1 hpart.2 hrest
    exact ⟨hreads.trans hinner, hthere⟩

mutual

/-- An item that declares no fields. -/
def Item.Placed : Item → Prop
  | .nspace _ items => AllPlaced items
  | .member m => m.Placed Decl.global
  | .group items => AllPlaced items

/-- Items that declare no fields. -/
def AllPlaced : List Item → Prop
  | [] => True
  | i :: is => i.Placed ∧ AllPlaced is

end

/-- What declares no fields may stand anywhere. -/
theorem Member.Placed.of_global {m : Member} (h : m.Placed Decl.global) (around : Decl) :
    m.Placed around := by
  match m with
  | .declaration (.mk ..) => exact fun hf => absurd (h hf) Bool.false_ne_true
  | .label _ | .typedef .. | .synonym .. => trivial

mutual

theorem reads_enterItem {t : DeclTree} {scope : DeclId} (hs : scope < t.size)
    (hns : (t.get scope).isNamespace) (file : String) :
    (i : Item) → i.Placed → Reads file t (enterItem t file scope i)
  | .nspace none _, _ => by
    rw [enterItem]
    exact .refl
  | .nspace (some name) items, hplaced => by
    rw [enterItem]
    obtain ⟨hopen, hlt, hinner⟩ := reads_openNamespace hs hns file
      (DeclTree.segments name.toList) fun _ => isQualified_of_mem_segments
    exact hopen.trans (reads_enterItems hlt hinner file items hplaced)
  | .member m, hplaced => by
    rw [enterItem]
    exact reads_enterMember ⟨hs, .inl hns⟩ file .pub m (hplaced.of_global _)
  | .group items, hplaced => by
    rw [enterItem]
    exact reads_enterItems hs hns file items hplaced

theorem reads_enterItems {t : DeclTree} {scope : DeclId} (hs : scope < t.size)
    (hns : (t.get scope).isNamespace) (file : String) :
    (is : List Item) → AllPlaced is → Reads file t (enterItems t file scope is)
  | [], _ => by
    rw [enterItems]
    exact .refl
  | i :: is, hplaced => by
    rw [enterItems]
    have hi := reads_enterItem hs hns file i hplaced.1
    exact hi.trans (reads_enterItems (Nat.lt_of_lt_of_le hs hi.extends.size_le)
      (by rw [hi.isNamespace hs]; exact hns) file is hplaced.2)

end

/-! ## What a header says -/

theorem allPlaced_append {is js : List Item} (hi : AllPlaced is) (hj : AllPlaced js) :
    AllPlaced (is ++ js) := by
  induction is with
  | nil => exact hj
  | cons i is ih => exact ⟨hi.1, ih hi.2⟩

/-- Of what is read, only fields declare fields. -/
theorem placed_of_readMember {ls : Array Lexeme} {p : Part} (hp : p ≠ .field) {start stop : Nat}
    {children : List Tree} {m : Member} (h : readMember ls (.part p start stop children) = some m) :
    m.Placed Decl.global := by
  unfold readMember at h
  split at h
  case h_1 | h_9 =>
    cases h
    trivial
  case h_2 => exact absurd rfl hp
  case h_3 | h_4 | h_5 | h_6 | h_7 | h_8 =>
    cases h
    exact fun hno => absurd hno Bool.false_ne_true
  case h_10 =>
    split at h
    · cases h
      trivial
    · cases h
  case h_11 => cases h

mutual

theorem placed_of_readItem (ls : Array Lexeme) :
    (tree : Tree) → ∀ {i : Item}, readItem ls tree = some i → i.Placed
  | .token .., i, h => by
    rw [readItem] at h
    cases h
  | .part p start stop children, i, h => by
    unfold readItem at h
    split at h
    case h_1 | h_2 | h_3 | h_4 | h_5 | h_6 =>
      cases h
      exact allPlaced_readItems ls children
    case h_7 | h_8 => cases h
    case h_9 hfield _ =>
      obtain ⟨m, hm, rfl⟩ := Option.map_eq_some_iff.mp h
      exact placed_of_readMember hfield hm

theorem allPlaced_readItems (ls : Array Lexeme) : (trees : List Tree) → AllPlaced (readItems ls trees)
  | [] => by
    rw [readItems]
    trivial
  | tree :: trees => by
    rw [readItems]
    refine allPlaced_append ?_ (allPlaced_readItems ls trees)
    cases h : readItem ls tree with
    | none => trivial
    | some i => exact ⟨placed_of_readItem ls tree h, trivial⟩

end

theorem Parsed.allPlaced_items (p : Parsed) : AllPlaced p.items :=
  allPlaced_readItems p.lexemes p.trees

/-- Whatever a header says, it is read into a tree with the two steps of `Reads`. -/
theorem reads_enter (ht : WellFormed t) (file : String) (p : Parsed) :
    Reads file t (enter t file p.items) :=
  reads_enterItems ht.root_lt ht.root_isNamespace file p.items p.allPlaced_items

/-- A header only adds to a tree. -/
theorem grown_enter (ht : Built t) (file : String) (p : Parsed) :
    Grown t (enter t file p.items) :=
  (reads_enter ht.wellFormed file p).grown

/-! ## Several headers -/

/-- The tree of some headers, each with its file, read one after the other. -/
def readAll (headers : List (String × Parsed)) : DeclTree :=
  headers.foldl (fun t h => enter t h.1 h.2.items) .empty

variable {headers : List (String × Parsed)}

theorem readAll_concat (headers : List (String × Parsed)) (h : String × Parsed) :
    readAll (headers ++ [h]) = enter (readAll headers) h.1 h.2.items := by
  rw [readAll, List.foldl_append]
  rfl

theorem orderly_readAll (headers : List (String × Parsed)) : Orderly (readAll headers) := by
  induction headers using List.reverseRecOn with
  | nil => exact .empty
  | append_singleton headers h ih =>
    rw [readAll_concat]
    exact (reads_enter ih.toWellFormed h.1 h.2).orderly ih

/-- A further header leaves everything in its place. -/
theorem extends_readAll (headers : List (String × Parsed)) (h : String × Parsed) :
    Extends h.1 (readAll headers) (readAll (headers ++ [h])) := by
  rw [readAll_concat]
  exact (reads_enter (orderly_readAll headers).toWellFormed h.1 h.2).extends

/-- Whether a declaration in the tree of some headers tells where it was read: a namespace tells no
file, and everything else that of the header that it came with. -/
def Tells (headers : List (String × Parsed)) (i : DeclId) : Prop :=
  if ((readAll headers).get i).isNamespace then ((readAll headers).get i).file = none
  else ∃ before h after, headers = before ++ h :: after ∧ (readAll before).size ≤ i ∧
    i < (readAll (before ++ [h])).size ∧ ((readAll headers).get i).file = some h.1

theorem tells_readAll {i : DeclId} (hi : i < (readAll headers).size) : Tells headers i := by
  induction headers using List.reverseRecOn with
  | nil =>
    have hget : (readAll []).get i = Decl.global := get_empty i
    rw [Tells, hget]
    rfl
  | append_singleton headers h ih =>
    have hext := extends_readAll headers h
    by_cases hold : i < (readAll headers).size
    · have htells := ih hold
      rw [Tells] at htells ⊢
      rw [hext.apply_get Decl.isNamespace (fun _ _ => rfl) hold,
        hext.apply_get Decl.file (fun _ _ => rfl) hold]
      split at htells
      · next hns => rwa [if_pos hns]
      · next hns =>
        obtain ⟨before, h', after, rfl, hle, hlt, hfile⟩ := htells
        rw [if_neg hns]
        exact ⟨before, h', after ++ [h], by simp, hle, hlt, hfile⟩
    · have hle := Nat.le_of_not_lt hold
      rw [Tells, hext.noted i hle hi]
      split
      · rfl
      · exact ⟨headers, h, [], rfl, hle, hi, rfl⟩

/-- **Headers are read into an orderly tree.** Whatever the headers say and in whatever order they
come: what stands in a scope suits it and repeats no class, enumeration or namespace of it, every
declaration tells its header, and a further header leaves all that is there in its place. -/
theorem readAll_invariant (headers : List (String × Parsed)) :
    Orderly (readAll headers) ∧ (∀ i < (readAll headers).size, Tells headers i) ∧
      ∀ h, Extends h.1 (readAll headers) (readAll (headers ++ [h])) :=
  ⟨orderly_readAll headers, fun _ => tells_readAll, extends_readAll headers⟩

end Header

end RubyBinding
