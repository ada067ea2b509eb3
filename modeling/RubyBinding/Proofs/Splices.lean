import RubyBinding.Proofs.CustomCode
import RubyBinding.Proofs.Registration

/-!
# No line of a plan is lost

Laying out a plan sorts the parts of each region, and puts them where the body of the region is cut
in two. The lines of the block are then the lines that went in, each as often as it did
(`block_perm`), whatever the order: a region's own lines stay in theirs, and the lines of a part
stay together (`Splices`). An extension begins with the head of its function and ends with the brace
that closes it (`extension_frame`).
-/

namespace RubyBinding

open Code (Statement)

namespace Plan

mutual

/-- The lines that a plan is put together from: the bodies of its regions, and the code that was
registered as it is. -/
def ownLines : Plan → List String
  | code _ lines => lines
  | region r parts => r.bodyLines ++ ownLinesOf parts

def ownLinesOf : List Plan → List String
  | [] => []
  | p :: ps => ownLines p ++ ownLinesOf ps

end

theorem ownLinesOf_eq_flatMap (ps : List Plan) : ownLinesOf ps = ps.flatMap ownLines := by
  induction ps with
  | nil => rfl
  | cons p ps ih => rw [ownLinesOf, ih, List.flatMap_cons]

/-- The parts of a region in the order of registration. -/
def registered (lib : Library) (parts : List Plan) : List Plan :=
  (positions (rank lib) parts).map Prod.fst

variable {lib : Library} {p q : Plan} {ps parts : List Plan} {r : Region} {ls : List String}

theorem partLines_eq (lib : Library) (parts : List Plan) :
    partLines lib parts = (registered lib parts).flatMap (lines lib) := by
  rw [partLines, registered, List.flatMap_map]

theorem registered_perm (lib : Library) (parts : List Plan) :
    (registered lib parts).Perm parts := by
  have hperm := (positions_perm (rank lib) parts).map Prod.fst
  rwa [List.zipIdx_map_fst] at hperm

theorem forall_block_of_isLaidOut (h : ∀ p ∈ parts, p.IsLaidOut lib) :
    ∀ p ∈ parts, ∃ ls, p.block lib = .ok ls := fun p hp => (h p hp).2

mutual

/-- **No line is lost, and none is doubled.** -/
theorem block_perm (p : Plan) (h : ∃ ls, p.block lib = .ok ls) :
    (p.lines lib).Perm p.ownLines := by
  obtain ⟨ls, hls⟩ := h
  cases p with
  | code node code =>
    rw [ownLines]
    exact .refl code
  | region r parts =>
    obtain ⟨hall, rfl⟩ := block_region_eq_ok_iff.mp hls
    have hparts := lines_perm parts (forall_block_of_isLaidOut hall)
    rw [lines_of_block hls, splice_eq, partLines_eq, ownLines]
    -- The second half of the body goes back to the first one, and the parts go behind it.
    calc
      _ = (splitClosing r.bodyLines).1 ++
          ((registered lib parts).flatMap (lines lib) ++ (splitClosing r.bodyLines).2) :=
        List.append_assoc _ _ _
      List.Perm _ ((splitClosing r.bodyLines).1 ++
          ((splitClosing r.bodyLines).2 ++ (registered lib parts).flatMap (lines lib))) :=
        List.perm_append_comm.append_left _
      _ = r.bodyLines ++ (registered lib parts).flatMap (lines lib) := by
        rw [← List.append_assoc, splitClosing_append]
      List.Perm _ (r.bodyLines ++ parts.flatMap (lines lib)) :=
        ((registered_perm lib parts).flatMap_right _).append_left _
      List.Perm _ (r.bodyLines ++ ownLinesOf parts) := hparts.append_left _

theorem lines_perm (ps : List Plan) (h : ∀ p ∈ ps, ∃ ls, p.block lib = .ok ls) :
    (ps.flatMap (lines lib)).Perm (ownLinesOf ps) := by
  cases ps with
  | nil => exact .refl []
  | cons p ps =>
    obtain ⟨hp, hps⟩ := List.forall_mem_cons.mp h
    rw [List.flatMap_cons, ownLinesOf]
    exact (block_perm p hp).append (lines_perm ps hps)

end

/-! ## Where a body is cut -/

/-- A body that ends with a brace and blank lines is cut in front of the brace. -/
theorem splitClosing_brace {before blanks : List String} {brace : String}
    (hbrace : Text.trimmed brace = "\x7d") (hblanks : ∀ l ∈ blanks, Text.trimmed l = "") :
    splitClosing (before ++ brace :: blanks) = (before, brace :: blanks) := by
  have hreverse : (before ++ brace :: blanks).reverse =
      blanks.reverse ++ brace :: before.reverse := by simp
  have hempty : ∀ l ∈ blanks.reverse, (Text.trimmed l).isEmpty = true := by
    intro l hl
    rw [hblanks l (List.mem_reverse.mp hl)]
    rfl
  have htake : (before ++ brace :: blanks).reverse.takeWhile
      (fun l => (Text.trimmed l).isEmpty) = blanks.reverse := by
    rw [hreverse, List.takeWhile_append_of_pos hempty]
    simp [hbrace]
  have hdrop : (before ++ brace :: blanks).reverse.dropWhile
      (fun l => (Text.trimmed l).isEmpty) = brace :: before.reverse := by
    rw [hreverse, List.dropWhile_append_of_pos hempty]
    simp [hbrace]
  unfold splitClosing
  dsimp only
  rw [htake, hdrop]
  simp [hbrace]

/-- What stays at the end of a body is nothing, or a closing brace and blank lines. -/
theorem snd_splitClosing (body : List String) :
    (splitClosing body).2 = [] ∨ ∃ brace blanks, (splitClosing body).2 = brace :: blanks ∧
      Text.trimmed brace = "\x7d" ∧ ∀ l ∈ blanks, Text.trimmed l = "" := by
  unfold splitClosing
  dsimp only
  split
  · next last before hdrop =>
    split
    · next hlast =>
      refine .inr ⟨_, _, rfl, hlast, ?_⟩
      intro l hl
      simpa using List.mem_takeWhile_imp (List.mem_reverse.mp hl)
    · exact .inl rfl
  · exact .inl rfl

/-- How the body of a region stands in its block: it is cut in two, and the blocks of the parts
stand in between, one after the other. The second piece is nothing, or the closing brace that the
body ends with and the blank lines after it. -/
structure Splices (lib : Library) (r : Region) (parts : List Plan)
    (block lead closing : List String) (order : List Plan) : Prop where
  body : r.bodyLines = lead ++ closing
  parts_perm : order.Perm parts
  laidOut : ∀ p ∈ parts, p.block lib = .ok (p.lines lib)
  block_eq : block = lead ++ order.flatMap (lines lib) ++ closing
  closing_eq : closing = [] ∨ ∃ brace blanks, closing = brace :: blanks ∧
    Text.trimmed brace = "\x7d" ∧ ∀ l ∈ blanks, Text.trimmed l = ""
  ends : ∀ before brace blanks, r.bodyLines = before ++ brace :: blanks →
    Text.trimmed brace = "\x7d" → (∀ l ∈ blanks, Text.trimmed l = "") → closing = brace :: blanks

theorem splices_of_block (h : (region r parts).block lib = .ok ls) :
    Splices lib r parts ls (splitClosing r.bodyLines).1 (splitClosing r.bodyLines).2
      (registered lib parts) := by
  obtain ⟨hall, rfl⟩ := block_region_eq_ok_iff.mp h
  refine ⟨(splitClosing_append _).symm, registered_perm lib parts, ?_, ?_, snd_splitClosing _, ?_⟩
  · intro p hp
    obtain ⟨qs, hqs⟩ := (hall p hp).2
    rw [lines_of_block hqs]
    exact hqs
  · rw [splice_eq, partLines_eq]
  · intro before brace blanks hbody hbrace hblanks
    rw [hbody, splitClosing_brace hbrace hblanks]

end Plan

/-! ## Extensions -/

namespace Setting

/-- The two lines that an extension begins with. -/
def openingLines (name : String) : List String :=
  ["extern \"C\"", "void Init_" ++ name ++ "() \x7b"]

/-- **The function of an extension is opened before anything else, and closed after it.** -/
theorem extension_frame (g : Setting) (name : String) (ns : Option DeclId)
    (modules : List ModuleSpec) :
    Gen.Yields (fun _ => True) (g.extension name ns modules)
      (fun e => ∃ own, e.root.bodyLines = openingLines name ++ own ++ ["\x7d"]) fun _ => True := by
  have rest : ∀ inside : Draft, Gen.Yields (fun _ => True) (do
      let submodules ← g.modulePlans none modules
      return (⟨g.extensionRegion name inside, inside.parts ++ submodules⟩ : Extension))
      (fun e => ∃ own, e.root.bodyLines = openingLines name ++ own ++ ["\x7d"])
      fun _ => True := by
    intro inside
    refine .bind (yields_any _) fun submodules _ => .pure ⟨inside.body.map Statement.text, ?_⟩
    show ([Statement.frame _, .frame _] ++ inside.body ++ [Statement.frame _]).map
      Statement.text = _
    rw [List.map_append, List.map_append]
    rfl
  unfold extension
  dsimp only
  refine .bind (yields_any _) fun _ _ => ?_
  cases ns with
  | none => exact rest {}
  | some ns => exact .bind (yields_any _) fun inside _ => rest inside

/-- **No line is lost.** A block has the lines of all regions of its plan, and those that were
registered as they are, each as often as they are there. The block of every region inside stands in
it in one piece, with the region's own lines in their order, with the blocks of its parts between
them in one piece each, and with the brace that the body ends with at the end. The block of an
extension begins with the head of its function and ends with the brace that closes it, and
everything that is registered stands in between. -/
theorem block_conserves (lib : Library) :
    (∀ (p : Plan) (ls : List String), p.block lib = .ok ls → ls.Perm p.ownLines ∧
      ∀ a r parts, p.at? a = some (.region r parts) → ∃ front back block lead closing order,
        ls = front ++ block ++ back ∧ (Plan.region r parts).block lib = .ok block ∧
        Plan.Splices lib r parts block lead closing order) ∧
    ∀ (g : Setting) name ns modules s e s' ls,
      (g.extension name ns modules).run.run s = (.ok e, s') → e.plan.block lib = .ok ls →
      ∃ (own : List String) (order : List Plan),
        e.root.bodyLines = openingLines name ++ own ++ ["\x7d"] ∧
        order.Perm e.parts ∧ (∀ p ∈ e.parts, p.block lib = .ok (p.lines lib)) ∧
        ls = openingLines name ++ own ++ order.flatMap (Plan.lines lib) ++ ["\x7d"] := by
  constructor
  · intro p ls h
    constructor
    · rw [← Plan.lines_of_block h]
      exact Plan.block_perm p ⟨ls, h⟩
    · intro a r parts ha
      obtain ⟨⟨qs, hqs⟩, front, back, hls, -⟩ := Plan.exists_block_eq h ha
      rw [Plan.lines_of_block hqs] at hls
      exact ⟨front, back, qs, _, _, _, hls, hqs, Plan.splices_of_block hqs⟩
  · intro g name ns modules s e s' ls hrun hblock
    obtain ⟨⟨own, hown⟩, -⟩ := (g.extension_frame name ns modules).of_run trivial hrun
    have hsplices := Plan.splices_of_block hblock
    have hclosing := hsplices.ends _ _ [] hown rfl (List.forall_mem_nil _)
    -- The brace is the whole second piece, so the first one is all that stands in front of it.
    have hlead : openingLines name ++ own = (splitClosing e.root.bodyLines).1 := by
      have hbody := hown.symm.trans hsplices.body
      rw [hclosing] at hbody
      exact List.append_cancel_right hbody
    refine ⟨own, _, hown, hsplices.parts_perm, hsplices.laidOut, ?_⟩
    rw [hsplices.block_eq, hclosing, ← hlead]

/-- A function with a blank line after its brace. -/
def bracedRegion : Region :=
  { name := "f", node := none, body := [.frame "void f() \x7b", .frame "\x7d", .frame ""] }

/-- A function that is called in another one. -/
def calledRegion : Region := { name := "k", node := none, body := [.custom "k();"] }

/-- Two lines and a region, registered in another region. -/
def bracedPlan : Plan := .region bracedRegion [.code none ["g();", "h();"], .region calledRegion []]

/-- What is registered stands in front of the brace, in a region as in an extension. -/
theorem block_conserves_bracedPlan :
    bracedPlan.block (.ofTree .empty) =
        .ok ["void f() \x7b", "g();", "h();", "k();", "\x7d", ""] ∧
      ["void f() \x7b", "g();", "h();", "k();", "\x7d", ""].Perm bracedPlan.ownLines ∧
    ∃ e s ls own order,
      (Setting.extension { library := .ofTree sideBySide } "E" (some 0) []).run.run {} =
        (.ok e, s) ∧
      e.plan.block (.ofTree sideBySide) = .ok ls ∧ e.parts.length = 2 ∧
      List.Perm order e.parts ∧
      ls = openingLines "E" ++ own ++ order.flatMap (Plan.lines (.ofTree sideBySide)) ++
        ["\x7d"] := by
  have hbraced : bracedRegion.bodyLines = ["void f() \x7b", "\x7d", ""] := rfl
  have hcalled : calledRegion.bodyLines = ["k();"] := rfl
  have hblock : bracedPlan.block (.ofTree .empty) =
      .ok ["void f() \x7b", "g();", "h();", "k();", "\x7d", ""] := by
    simp only [bracedPlan, Plan.block, Plan.blocks, Plan.node, hbraced, hcalled]
    cbv
  refine ⟨hblock, ((block_conserves _).1 _ _ hblock).1, ?_⟩
  obtain ⟨e, s, hrun, htest⟩ := exists_of_planPasses { library := .ofTree sideBySide } "E" (some 0)
    [] (fun p => match p with | .code _ _ => false | .region _ parts => parts.length == 2) (by cbv)
  have hdepth := Library.exists_depth_of_all (.ofTree sideBySide) (by cbv)
  obtain ⟨-, ls, hls⟩ := Plan.isLaidOut_of_depth hdepth e.plan
  obtain ⟨own, order, -, hperm, -, heq⟩ := (block_conserves _).2 _ _ _ _ _ _ _ _ hrun hls
  exact ⟨e, s, ls, own, order, hrun, hls, by simpa [Extension.plan] using htest, hperm, heq⟩

end Setting

end RubyBinding
