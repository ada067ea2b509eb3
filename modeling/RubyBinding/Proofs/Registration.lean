import Mathlib
import RubyBinding.Proofs.Blocks
import RubyBinding.Proofs.Depths
import RubyBinding.Proofs.Planning

/-!
# Which class is defined first

The block of an extension holds the block of every region inside it, and `Plan.offset` is the line
at which that block begins (`exists_block_eq`). Of two regions, the one begins first that lies in
what is registered first where the ways to the two part (`Plan.Precedes`): each region sorts its own
parts by the depths of their declarations, and looks no further into them.

So a superclass is defined before its subclass if the two are parts of one region, or the one is
nested in the other. Otherwise the regions around them decide, whatever is nested in those
(`superclass_line_lt_iff`), and the subclass can come first.
-/

namespace RubyBinding

open Code (Statement)

namespace Plan

/-! ## Where blocks begin -/

/-- The number of lines of the parts that are registered before a part. -/
def linesBefore (lib : Library) (parts : List Plan) (x : Plan × Nat) : Nat :=
  ((parts.zipIdx.filter fun y => decide (Before (rank lib) y x)).flatMap fun y =>
    y.1.lines lib).length

/-- The line of a plan's block at which the block of the plan at an address begins. -/
def offset (lib : Library) : Plan → List Nat → Nat
  | _, [] => 0
  | code _ _, _ :: _ => 0
  | region r parts, k :: a =>
    match parts[k]? with
    | some p =>
      (splitClosing r.bodyLines).1.length + linesBefore lib parts (p, k) + p.offset lib a
    | none => 0

/-- Whether the plan at the first address is registered before the one at the second: it lies around
it, or in a part that is registered before the part with the other. -/
def Precedes (lib : Library) : Plan → List Nat → List Nat → Prop
  | _, _, [] => False
  | _, [], _ :: _ => True
  | code _ _, _ :: _, _ :: _ => False
  | region _ parts, j :: a, k :: b =>
    match parts[j]?, parts[k]? with
    | some p, some q => if j = k then p.Precedes lib a b else Before (rank lib) (p, j) (q, k)
    | _, _ => False

variable {lib : Library} {p q part : Plan} {parts : List Plan} {r : Region} {x y : Plan × Nat}
  {a b : List Nat} {j k : Nat} {ls : List String}

theorem exists_part_of_at? (h : p.at? (k :: a) = some q) :
    ∃ r parts part, p = region r parts ∧ parts[k]? = some part ∧ part.at? a = some q := by
  cases p with
  | code node code => cases h
  | region r parts =>
    rw [at?] at h
    split at h
    · next part hpart => exact ⟨r, parts, part, rfl, hpart, h⟩
    · cases h

theorem offset_region_cons (h : parts[k]? = some part) (a : List Nat) :
    (region r parts).offset lib (k :: a) =
      (splitClosing r.bodyLines).1.length + linesBefore lib parts (part, k) +
        part.offset lib a := by
  rw [offset, h]

theorem mem_zipIdx_of_getElem? (h : parts[k]? = some part) : (part, k) ∈ parts.zipIdx :=
  List.mem_zipIdx_iff_getElem?.mpr h

theorem linesBefore_eq (lib : Library) (parts : List Plan) (x : Plan × Nat) :
    linesBefore lib parts x =
      (((positions (rank lib) parts).filter fun y => decide (Before (rank lib) y x)).flatMap
        fun y => y.1.lines lib).length := by
  have hperm := (positions_perm (rank lib) parts).filter fun y => decide (Before (rank lib) y x)
  exact (hperm.flatMap_right _).length_eq.symm

/-- The lines before a part are those of the parts in front of it, once they are sorted. -/
theorem exists_front (lib : Library) (hx : x ∈ parts.zipIdx) :
    ∃ front back, positions (rank lib) parts = front ++ x :: back ∧
      (∀ y ∈ front, Before (rank lib) y x) ∧
        (front.flatMap fun y => y.1.lines lib).length = linesBefore lib parts x := by
  obtain ⟨front, back, heq, hfront, hback⟩ := exists_positions_eq (rank lib) hx
  refine ⟨front, back, heq, hfront, ?_⟩
  rw [linesBefore_eq, heq, List.filter_append, List.filter_cons_of_neg]
  · rw [List.filter_eq_self.mpr fun y hy => decide_eq_true (hfront y hy)]
    rw [List.filter_eq_nil_iff.mpr, List.append_nil]
    intro y hy
    rw [decide_eq_true_eq]
    exact (hback y hy).asymm
  · rw [decide_eq_true_eq]
    exact Before.irrefl _ x

/-- A part is over before the next one begins. -/
theorem linesBefore_add_le (hx : x ∈ parts.zipIdx) (h : Before (rank lib) x y) :
    linesBefore lib parts x + (x.1.lines lib).length ≤ linesBefore lib parts y := by
  obtain ⟨front, back, heq, hfront, hlength⟩ := exists_front lib hx
  have hall : front.filter (fun z => decide (Before (rank lib) z y)) = front :=
    List.filter_eq_self.mpr fun z hz => decide_eq_true ((hfront z hz).trans _ h)
  have hcons : (x :: back).filter (fun z => decide (Before (rank lib) z y)) =
      x :: back.filter fun z => decide (Before (rank lib) z y) :=
    List.filter_cons_of_pos (decide_eq_true h)
  rw [linesBefore_eq lib parts y, heq, List.filter_append, hall, hcons, List.flatMap_append,
    List.flatMap_cons, List.length_append, List.length_append, hlength]
  omega

/-- **The block of every plan inside stands in the block of the whole.** -/
theorem exists_block_eq (h : p.block lib = .ok ls) (ha : p.at? a = some q) :
    (∃ qs, q.block lib = .ok qs) ∧
      ∃ front back, ls = front ++ q.lines lib ++ back ∧ front.length = p.offset lib a := by
  induction a generalizing p ls with
  | nil =>
    cases ha
    refine ⟨⟨ls, h⟩, [], [], ?_, rfl⟩
    rw [lines_of_block h, List.nil_append, List.append_nil]
  | cons k a ih =>
    obtain ⟨r, parts, part, rfl, hpart, ha⟩ := exists_part_of_at? ha
    obtain ⟨hall, rfl⟩ := block_region_eq_ok_iff.mp h
    obtain ⟨-, qs, hqs⟩ := hall part (List.mem_of_getElem? hpart)
    obtain ⟨hq, front, back, heq, hlength⟩ := ih hqs ha
    obtain ⟨before, behind, hpositions, -, hbefore⟩ :=
      exists_front lib (mem_zipIdx_of_getElem? hpart)
    refine ⟨hq, (splitClosing r.bodyLines).1 ++ (before.flatMap fun y => y.1.lines lib) ++ front,
      back ++ (behind.flatMap fun y => y.1.lines lib) ++ (splitClosing r.bodyLines).2, ?_, ?_⟩
    · rw [splice_eq, partLines, hpositions, List.flatMap_append, List.flatMap_cons,
        lines_of_block hqs, heq]
      simp only [List.append_assoc]
    · rw [offset_region_cons hpart, List.length_append, List.length_append, hbefore, hlength]

/-- A block that is not empty begins before the block of the whole is over. -/
theorem offset_lt_length (h : p.block lib = .ok ls) (ha : p.at? a = some q)
    (hq : q.lines lib ≠ []) : p.offset lib a < (p.lines lib).length := by
  obtain ⟨-, front, back, rfl, hlength⟩ := exists_block_eq h ha
  have hpos := List.length_pos_iff.mpr hq
  rw [lines_of_block h, List.length_append, List.length_append, ← hlength]
  omega

/-! ## Which block begins first -/

/-- Whether a plan has lines of its own in front of its parts. -/
def HasLead (p : Plan) : Prop :=
  ∃ r parts, p = region r parts ∧ (splitClosing r.bodyLines).1 ≠ []

theorem HasLead.lines_ne_nil (hlead : p.HasLead) (h : p.block lib = .ok ls) : p.lines lib ≠ [] := by
  obtain ⟨r, parts, rfl, hne⟩ := hlead
  obtain ⟨-, rfl⟩ := block_region_eq_ok_iff.mp h
  rw [lines_of_block h, splice_eq]
  intro hnil
  exact hne (List.append_eq_nil_iff.mp (List.append_eq_nil_iff.mp hnil).1).1

/-- **What is registered first begins first.** -/
theorem offset_lt_of_precedes (h : p.block lib = .ok ls) (ha : p.at? a = some q)
    (hq : q.HasLead) {q' : Plan} (hb : p.at? b = some q') (hprec : p.Precedes lib a b) :
    p.offset lib a < p.offset lib b := by
  -- By induction on the first address, as long as the two addresses agree.
  induction a generalizing p b ls with
  | nil =>
    cases ha
    cases b with
    | nil => cases hprec
    | cons k b =>
      -- Whatever is inside begins after the lead of the plan around it.
      obtain ⟨r, parts, part, rfl, hpart, -⟩ := exists_part_of_at? hb
      obtain ⟨r', parts', heq, hne⟩ := hq
      cases heq
      have hpos := List.length_pos_iff.mpr hne
      rw [offset_region_cons hpart]
      unfold offset
      omega
  | cons j a ih =>
    cases b with
    | nil => cases hprec
    | cons k b =>
      obtain ⟨r, parts, part, rfl, hpart, ha⟩ := exists_part_of_at? ha
      obtain ⟨_, _, other, heq, hother, hb⟩ := exists_part_of_at? hb
      cases heq
      obtain ⟨hall, -⟩ := block_region_eq_ok_iff.mp h
      obtain ⟨-, ls', hls'⟩ := hall part (List.mem_of_getElem? hpart)
      rw [Precedes, hpart, hother] at hprec
      rw [offset_region_cons hpart, offset_region_cons hother]
      by_cases hjk : j = k
      · subst hjk
        rw [hpart] at hother
        cases hother
        dsimp only at hprec
        rw [if_pos rfl] at hprec
        have hlt := ih hls' ha hb hprec
        omega
      · -- Here the addresses part: the first part is over before the other one begins.
        dsimp only at hprec
        rw [if_neg hjk] at hprec
        have hne : q.lines lib ≠ [] := by
          obtain ⟨⟨qs, hqs⟩, -⟩ := exists_block_eq hls' ha
          exact hq.lines_ne_nil hqs
        have hinside := offset_lt_length hls' ha hne
        have hover := linesBefore_add_le (mem_zipIdx_of_getElem? hpart) hprec
        dsimp only at hover
        omega

/-- In different parts of one region, the parts decide. -/
theorem precedes_cons_iff {part' : Plan} (hj : p.at? [j] = some part) (hk : p.at? [k] = some part')
    (hne : j ≠ k) :
    p.Precedes lib (j :: a) (k :: b) ↔ Before (rank lib) (part, j) (part', k) := by
  obtain ⟨r, parts, x, rfl, hx, hj⟩ := exists_part_of_at? hj
  obtain ⟨_, _, y, heq, hy, hk⟩ := exists_part_of_at? hk
  cases heq
  cases hj
  cases hk
  rw [Precedes, hx, hy]
  dsimp only
  rw [if_neg hne]

/-- Of two plans inside one, the first precedes the second or the second the first. -/
theorem precedes_or_precedes {q' : Plan} (ha : p.at? a = some q) (hb : p.at? b = some q')
    (hne : a ≠ b) : p.Precedes lib a b ∨ p.Precedes lib b a := by
  induction a generalizing p b with
  | nil =>
    cases b with
    | nil => exact absurd rfl hne
    | cons k b => exact .inl trivial
  | cons j a ih =>
    cases b with
    | nil => exact .inr trivial
    | cons k b =>
      obtain ⟨r, parts, part, rfl, hpart, ha⟩ := exists_part_of_at? ha
      obtain ⟨_, _, other, heq, hother, hb⟩ := exists_part_of_at? hb
      cases heq
      rw [Precedes, Precedes, hpart, hother]
      dsimp only
      by_cases hjk : j = k
      · subst hjk
        rw [hpart] at hother
        cases hother
        rw [if_pos rfl, if_pos rfl]
        refine ih ha hb ?_
        rintro rfl
        exact hne rfl
      · rw [if_neg hjk, if_neg (Ne.symm hjk)]
        exact before_or_before _ hjk

/-- **Which block begins first**: it is exactly the one that is registered first. -/
theorem offset_lt_iff_precedes {q' : Plan} (h : p.block lib = .ok ls) (ha : p.at? a = some q)
    (hq : q.HasLead) (hb : p.at? b = some q') (hq' : q'.HasLead) :
    p.offset lib a < p.offset lib b ↔ p.Precedes lib a b := by
  constructor
  · intro hlt
    by_cases hab : a = b
    · subst hab
      exact absurd hlt (Nat.lt_irrefl _)
    · rcases precedes_or_precedes ha hb hab with hprec | hprec
      · exact hprec
      · have hgt := offset_lt_of_precedes h hb hq' ha hprec
        exact absurd hlt (Nat.lt_asymm hgt)
  · exact offset_lt_of_precedes h ha hq hb

/-- What lies in something is preceded by it. -/
theorem precedes_of_prefix (hb : p.at? b = some q) (h : a <+: b) (hne : a ≠ b) :
    p.Precedes lib a b := by
  induction a generalizing p b with
  | nil =>
    cases b with
    | nil => exact absurd rfl hne
    | cons k b => exact trivial
  | cons j a ih =>
    cases b with
    | nil => exact absurd (List.prefix_nil.mp h) (List.cons_ne_nil j a)
    | cons k b =>
      obtain ⟨hjk, hab⟩ := List.cons_prefix_cons.mp h
      subst hjk
      obtain ⟨r, parts, part, rfl, hpart, hb⟩ := exists_part_of_at? hb
      rw [Precedes, hpart]
      dsimp only
      rw [if_pos rfl]
      refine ih hb hab ?_
      rintro rfl
      exact hne rfl

/-- Of two parts of one region, the one of smaller rank precedes the other. -/
theorem precedes_of_rank_lt {q' : Plan} (ha : p.at? (a ++ [j]) = some q)
    (hb : p.at? (a ++ [k]) = some q') (hrank : q.rank lib < q'.rank lib) :
    p.Precedes lib (a ++ [j]) (a ++ [k]) := by
  induction a generalizing p with
  | nil =>
    obtain ⟨r, parts, part, rfl, hpart, ha⟩ := exists_part_of_at? ha
    obtain ⟨_, _, other, heq, hother, hb⟩ := exists_part_of_at? hb
    cases heq
    cases ha
    cases hb
    rw [List.nil_append, List.nil_append, Precedes, hpart, hother]
    dsimp only
    by_cases hjk : j = k
    · subst hjk
      rw [hpart] at hother
      cases hother
      exact absurd hrank (Nat.lt_irrefl _)
    · rw [if_neg hjk]
      exact .inl hrank
  | cons i a ih =>
    obtain ⟨r, parts, part, rfl, hpart, ha⟩ := exists_part_of_at? ha
    obtain ⟨_, _, other, heq, hother, hb⟩ := exists_part_of_at? hb
    cases heq
    rw [hpart] at hother
    cases hother
    rw [List.cons_append, List.cons_append, Precedes, hpart]
    dsimp only
    rw [if_pos rfl]
    exact ih ha hb

/-- Whatever is inside a plan that can be laid out can be laid out, and its depth can be told. -/
theorem isLaidOut_of_at? (h : p.block lib = .ok ls) (ha : p.at? a = some q) (hne : a ≠ []) :
    q.IsLaidOut lib := by
  induction a generalizing p ls with
  | nil => exact absurd rfl hne
  | cons k a ih =>
    obtain ⟨r, parts, part, rfl, hpart, ha⟩ := exists_part_of_at? ha
    obtain ⟨hall, -⟩ := block_region_eq_ok_iff.mp h
    have hlaid := hall part (List.mem_of_getElem? hpart)
    cases a with
    | nil =>
      cases ha
      exact hlaid
    | cons l a =>
      obtain ⟨ls', hls'⟩ := hlaid.2
      exact ih hls' ha (List.cons_ne_nil l a)

/-! ## Classes -/

/-- The class whose region a plan is: the region that begins by defining it. -/
def definesClass? : Plan → Option DeclId
  | region r _ =>
    match r.body.head? with
    | some (.defineClass ..) => r.node
    | _ => none
  | code _ _ => none

theorem exists_of_definesClass? {c : DeclId} (h : p.definesClass? = some c) :
    ∃ r parts handle cpp superclass parent ruby, p = region r parts ∧ r.node = some c ∧
      r.body.head? = some (.defineClass handle cpp superclass parent ruby) := by
  cases p with
  | code node code => cases h
  | region r parts =>
    rw [definesClass?] at h
    split at h
    · next hhead => exact ⟨r, parts, _, _, _, _, _, rfl, h, hhead⟩
    · cases h

end Plan

theorem exists_text_defineClass (handle cpp : String) (superclass parent : Option String)
    (ruby : String) :
    ∃ rest, (Statement.defineClass handle cpp superclass parent ruby).text =
      "\tRice::Data_Type" ++ Code.template [cpp] ++ " " ++ handle ++ " = " ++ rest := ⟨_, rfl⟩

/-- The line that defines a class is no closing brace. -/
theorem trimmed_defineClass_ne (handle cpp : String) (superclass parent : Option String)
    (ruby : String) :
    Text.trimmed (Statement.defineClass handle cpp superclass parent ruby).text ≠ "\x7d" := by
  obtain ⟨rest, hrest⟩ := exists_text_defineClass handle cpp superclass parent ruby
  have hstart : "\tRice::Data_Type".toList = '\t' :: 'R' :: "ice::Data_Type".toList := rfl
  have htext : ∃ cs, (Statement.defineClass handle cpp superclass parent ruby).text.toList =
      '\t' :: 'R' :: cs := by
    rw [hrest]
    simp only [String.toList_append, hstart, List.cons_append]
    exact ⟨_, rfl⟩
  obtain ⟨cs, hcs⟩ := htext
  exact trimmed_ne_of_toList hcs rfl (by decide)

namespace Plan

variable {lib : Library} {p q : Plan} {a b : List Nat} {ls : List String} {c : DeclId}

theorem hasLead_of_definesClass? (h : p.definesClass? = some c) : p.HasLead := by
  obtain ⟨r, parts, handle, cpp, superclass, parent, ruby, rfl, -, hhead⟩ :=
    exists_of_definesClass? h
  refine ⟨r, parts, rfl, ?_⟩
  have hfirst : r.bodyLines.head? =
      some (Statement.defineClass handle cpp superclass parent ruby).text := by
    rw [Region.bodyLines, List.head?_map, hhead]
    rfl
  intro hnil
  have hlead := head?_fst_splitClosing hfirst (trimmed_defineClass_ne _ _ _ _ _)
  rw [hnil] at hlead
  cases hlead

theorem mem_regions_of_at? {r : Region} {parts : List Plan}
    (h : p.at? a = some (region r parts)) : r ∈ p.regions := by
  induction a generalizing p with
  | nil =>
    cases h
    rw [regions]
    exact List.mem_cons_self
  | cons k a ih =>
    obtain ⟨r', parts', part, rfl, hpart, h⟩ := exists_part_of_at? h
    rw [regions, List.mem_cons, mem_regionsOf]
    exact .inr ⟨part, List.mem_of_getElem? hpart, ih h⟩

/-- The block of a class begins with the line that defines the class and names its superclass. -/
theorem getElem?_offset_of_definesClass? {g : Setting} (h : p.block lib = .ok ls)
    (hopens : ∀ r ∈ p.regions, g.OpensSoundly r) (ha : p.at? a = some q)
    (hq : q.definesClass? = some c) :
    ∃ s, g.library.superclass? c = .ok s ∧ (g.library.tree.get c).isRecord ∧
      ∃ handle parent ruby, ls[p.offset lib a]? = some (Statement.defineClass handle
        (g.library.classType c) (s.map g.library.classType) parent ruby).text := by
  obtain ⟨r, parts, handle, cpp, superclass, parent, ruby, rfl, hnode, hhead⟩ :=
    exists_of_definesClass? hq
  obtain ⟨c', s, hc', hrecord, hs, rfl, rfl⟩ := hopens r (mem_regions_of_at? ha) _ _ _ _ _ hhead
  rw [hnode] at hc'
  cases hc'
  refine ⟨s, hs, hrecord, handle, parent, ruby, ?_⟩
  obtain ⟨hblock, front, back, rfl, hlength⟩ := exists_block_eq h ha
  have hfirst : r.bodyLines.head? = some (Statement.defineClass handle (g.library.classType c)
      (s.map g.library.classType) parent ruby).text := by
    rw [Region.bodyLines, List.head?_map, hhead]
    rfl
  have hline := head?_lines_region hfirst (trimmed_defineClass_ne _ _ _ _ _) hblock
  rw [← hlength, List.append_assoc, List.getElem?_append_right (Nat.le_refl _), Nat.sub_self,
    ← List.head?_eq_getElem?, List.head?_append, hline]
  rfl

theorem node_of_definesClass? (h : p.definesClass? = some c) : p.node = some c := by
  obtain ⟨r, parts, handle, cpp, superclass, parent, ruby, rfl, hnode, -⟩ :=
    exists_of_definesClass? h
  exact hnode

/-- The superclass of a class whose depth can be told has a smaller rank. -/
theorem rank_lt_rank {above : DeclId} (hq : q.definesClass? = some c) (hlaid : q.IsLaidOut lib)
    (hrecord : (lib.tree.get c).isRecord) (hsuper : lib.superclass? c = .ok (some above))
    (hp : p.definesClass? = some above) : p.rank lib < q.rank lib := by
  obtain ⟨⟨n, hn⟩, -⟩ := hlaid
  rw [node_of_definesClass? hq] at hn
  obtain ⟨m, hm, hmn⟩ := Library.depth_of_superclass? hrecord hsuper hn
  have hm' : lib.rank (some above) = .ok m := hm
  rw [rank, rank, node_of_definesClass? hp, node_of_definesClass? hq, Library.rankOf_of_rank hm',
    Library.rankOf_of_rank hn, hmn]
  exact Nat.lt_succ_self m

end Plan

namespace Setting

variable {g : Setting} {t : DeclTree} {es : List Edit} {name : String} {ns : Option DeclId}
  {modules : List ModuleSpec} {e : Extension} {s : Session} {ls : List String} {a b : List Nat}
  {p q : Plan} {c above : DeclId}

/-- **When a superclass is defined before its subclass.** In the block of an extension, the line
that defines the superclass which was selected for a class comes before the line that defines the
class exactly if its region is registered before that of the class where the ways to the two part.
So it does if the two are parts of one region, or if the class is nested in its superclass. -/
theorem superclass_line_lt_iff (ht : t.Built) (hes : ∀ e ∈ es, e.InTree t)
    (hg : g.library = (Library.ofTree t).edits es)
    (hrun : (g.extension name ns modules).run.run {} = (.ok e, s))
    (hblock : e.plan.block g.library = .ok ls)
    (ha : e.plan.at? a = some p) (hp : p.definesClass? = some above)
    (hb : e.plan.at? b = some q) (hq : q.definesClass? = some c)
    (hsuper : g.library.superclass? c = .ok (some above)) :
    (∃ handle superclass parent ruby, ls[e.plan.offset g.library a]? =
      some (Statement.defineClass handle (g.library.classType above) superclass parent ruby).text) ∧
    (∃ handle parent ruby, ls[e.plan.offset g.library b]? =
      some (Statement.defineClass handle (g.library.classType c)
        (some (g.library.classType above)) parent ruby).text) ∧
    (e.plan.offset g.library a < e.plan.offset g.library b ↔ e.plan.Precedes g.library a b) ∧
    (((∃ x j k, a = x ++ [j] ∧ b = x ++ [k]) ∨ a <+: b) →
      e.plan.offset g.library a < e.plan.offset g.library b) := by
  have hw : g.library.tree.WellFormed := by
    rw [hg, Library.edits_tree]
    exact ht.wellFormed
  have hm : g.library.MovesSound := by
    rw [hg]
    exact .edits hes
  obtain ⟨hroot, hopens⟩ := ((extension_yields hw hm name ns modules).of_run trivial hrun).1
  obtain ⟨above', hs', -, handle, parent, ruby, hline⟩ :=
    Plan.getElem?_offset_of_definesClass? hblock hopens ha hp
  obtain ⟨super, hs, hrecord, handle', parent', ruby', hline'⟩ :=
    Plan.getElem?_offset_of_definesClass? hblock hopens hb hq
  rw [hsuper] at hs
  cases hs
  have hiff := Plan.offset_lt_iff_precedes hblock ha (Plan.hasLead_of_definesClass? hp) hb
    (Plan.hasLead_of_definesClass? hq)
  refine ⟨⟨_, _, _, _, hline⟩, ⟨_, _, _, hline'⟩, hiff, ?_⟩
  intro hplace
  -- The extension itself is no class, so that the class is in one of its parts.
  have hne : b ≠ [] := by
    rintro rfl
    cases hb
    have hnode := Plan.node_of_definesClass? hq
    rw [Extension.plan, Plan.node, hroot] at hnode
    cases hnode
  have hrank := Plan.rank_lt_rank hq (Plan.isLaidOut_of_at? hblock hb hne) hrecord hsuper hp
  rw [hiff]
  rcases hplace with ⟨x, j, k, rfl, rfl⟩ | hprefix
  · exact Plan.precedes_of_rank_lt ha hb hrank
  · refine Plan.precedes_of_prefix hb hprefix ?_
    rintro rfl
    rw [ha] at hb
    cases hb
    exact Nat.lt_irrefl _ hrank

/-! ## Two libraries -/

/-- Whether an extension can be planned, with a plan that passes a test. -/
def planPasses (g : Setting) (name : String) (ns : Option DeclId) (modules : List ModuleSpec)
    (test : Plan → Bool) : Bool :=
  match ((g.extension name ns modules).run.run {}).1 with
  | .ok e => test e.plan
  | .error _ => false

theorem exists_of_planPasses (g : Setting) (name : String) (ns : Option DeclId)
    (modules : List ModuleSpec) (test : Plan → Bool)
    (h : g.planPasses name ns modules test = true) :
    ∃ e s, (g.extension name ns modules).run.run {} = (.ok e, s) ∧ test e.plan = true := by
  unfold planPasses at h
  rcases hrun : (g.extension name ns modules).run.run {} with ⟨err | e, s⟩
  · rw [hrun] at h
    cases h
  · rw [hrun] at h
    exact ⟨e, s, rfl, h⟩

/-- A class in the global namespace, and after it its superclass. -/
def sideBySide : DeclTree :=
  let t := (DeclTree.empty.add DeclTree.root "C" (.record false [⟨"S", .pub, false⟩])).2
  (t.add DeclTree.root "S" (.record false [])).2

theorem sideBySide_built : sideBySide.Built := by
  refine .add (.add .empty ?_ _ _) ?_ _ _ <;> decide

/-- Side by side, the superclass is defined first. -/
theorem superclass_line_lt_sideBySide :
    ∃ e s, (Setting.extension { library := .ofTree sideBySide } "E" (some 0) []).run.run {} =
        (.ok e, s) ∧
      e.plan.offset (.ofTree sideBySide) [1] < e.plan.offset (.ofTree sideBySide) [0] := by
  obtain ⟨e, s, hrun, htest⟩ := exists_of_planPasses { library := .ofTree sideBySide } "E" (some 0)
    [] (fun p => [[0], [1]].map (fun a => (p.at? a).bind Plan.definesClass?) = [some 1, some 2])
    (by cbv)
  obtain ⟨hc, hs⟩ : (e.plan.at? [0]).bind Plan.definesClass? = some 1 ∧
      (e.plan.at? [1]).bind Plan.definesClass? = some 2 := by
    simpa using htest
  obtain ⟨q, hq, hqc⟩ := Option.bind_eq_some_iff.mp hc
  obtain ⟨p, hp, hps⟩ := Option.bind_eq_some_iff.mp hs
  have hdepth := Library.exists_depth_of_all (.ofTree sideBySide) (by cbv)
  obtain ⟨-, ls, hls⟩ := Plan.isLaidOut_of_depth hdepth e.plan
  have hsuper : (Library.ofTree sideBySide).superclass? 1 = .ok (some 2) := by cbv
  refine ⟨e, s, hrun, ?_⟩
  have hlines := superclass_line_lt_iff sideBySide_built (List.forall_mem_nil _) rfl hrun hls hp hps
    hq hqc hsuper
  exact hlines.2.2.2 (.inl ⟨[], 1, 0, rfl, rfl⟩)

/-- A class in a namespace, and its superclass in another namespace after that. -/
def farApart : DeclTree :=
  let t := (DeclTree.empty.add DeclTree.root "A" .nspace).2
  let t := (t.add 1 "C" (.record false [⟨"B::S", .pub, false⟩])).2
  let t := (t.add DeclTree.root "B" .nspace).2
  (t.add 3 "S" (.record false [])).2

/-- Modules are registered in the order of their namespaces, whatever classes are in them: here the
class is defined before its superclass. -/
theorem subclass_line_lt_farApart :
    ∃ e s ls p q,
      (Setting.extension { library := .ofTree farApart } "E" (some 0) []).run.run {} = (.ok e, s) ∧
      e.plan.block (.ofTree farApart) = .ok ls ∧
      e.plan.at? [0, 0] = some p ∧ p.definesClass? = some 2 ∧
      e.plan.at? [1, 0] = some q ∧ q.definesClass? = some 4 ∧
      (Library.ofTree farApart).superclass? 2 = .ok (some 4) ∧
      e.plan.offset (.ofTree farApart) [0, 0] < e.plan.offset (.ofTree farApart) [1, 0] := by
  obtain ⟨e, s, hrun, htest⟩ := exists_of_planPasses { library := .ofTree farApart } "E" (some 0)
    [] (fun p => [[0, 0], [1, 0]].map (fun a => (p.at? a).bind Plan.definesClass?) =
      [some 2, some 4] && [[0], [1]].map (fun a => (p.at? a).bind Plan.node) = [some 1, some 3])
    (by cbv)
  obtain ⟨⟨hc, hs⟩, hA, hB⟩ : ((e.plan.at? [0, 0]).bind Plan.definesClass? = some 2 ∧
      (e.plan.at? [1, 0]).bind Plan.definesClass? = some 4) ∧
        (e.plan.at? [0]).bind Plan.node = some 1 ∧ (e.plan.at? [1]).bind Plan.node = some 3 := by
    simpa using htest
  obtain ⟨p, hp, hpc⟩ := Option.bind_eq_some_iff.mp hc
  obtain ⟨q, hq, hqs⟩ := Option.bind_eq_some_iff.mp hs
  obtain ⟨first, hfirst, hnode⟩ := Option.bind_eq_some_iff.mp hA
  obtain ⟨second, hsecond, hnode'⟩ := Option.bind_eq_some_iff.mp hB
  have hdepth := Library.exists_depth_of_all (.ofTree farApart) (by cbv)
  obtain ⟨-, ls, hls⟩ := Plan.isLaidOut_of_depth hdepth e.plan
  have hsuper : (Library.ofTree farApart).superclass? 2 = .ok (some 4) := by cbv
  refine ⟨e, s, ls, p, q, hrun, hls, hp, hpc, hq, hqs, hsuper, ?_⟩
  have hrank : first.rank (.ofTree farApart) = 0 ∧ second.rank (.ofTree farApart) = 0 := by
    rw [Plan.rank, Plan.rank, hnode, hnode']
    refine ⟨?_, ?_⟩ <;> cbv
  refine Plan.offset_lt_of_precedes hls hp (Plan.hasLead_of_definesClass? hpc) hq ?_
  rw [Plan.precedes_cons_iff hfirst hsecond (by decide)]
  exact .inr ⟨hrank.1.trans hrank.2.symm, Nat.zero_lt_one⟩

end Setting

end RubyBinding
