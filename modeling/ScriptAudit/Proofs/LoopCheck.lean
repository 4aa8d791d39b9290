/-
The loop check is exact. It reports a script if and only if some `while` statement that does not lie in
the test of another one freezes, and then it reports the one that begins first.

Two things carry this. The search goes through the bodies of loops and not through their tests, and
that it so finds every loop outside a test and no other (`mem_preorder_iff`) needs that no loop is in
two places of the tree. That the first loop found begins first is `Node.Arranged.preorder_precedes`.
-/
import ScriptAudit.Proofs.TreeLayout
import ScriptAudit.Script.Loops

namespace ScriptAudit

namespace Node

/-- The test is the word `true`, and nothing in the loop awaits. -/
structure Freezes (loop : Tree) : Prop where
  endless : ∃ test body value, loop.form = .whileStatement test body ∧
    test.form = .literal value (Text.ofString "true")
  silent : ∀ n ∈ loop.nodes, n.kind ≠ .awaitExpression

/-- The tree does not have the node in the test of a loop. -/
def OutsideTests (root n : Tree) : Prop :=
  ∀ w ∈ root.nodes, ∀ test body, w.form = .whileStatement test body → n ∉ test.nodes

theorem containsAwait_iff {n : Tree} : n.containsAwait = true ↔ ∃ m ∈ n.nodes, m.kind = .awaitExpression := by
  simp [containsAwait, find?, List.find?_isSome]

theorem isTrueLiteral_iff {n : Tree} :
    n.isTrueLiteral = true ↔ ∃ value, n.form = .literal value (Text.ofString "true") := by
  unfold isTrueLiteral
  split
  · rename_i value raw hform
    rw [hform]
    simp
  · rename_i hform
    exact ⟨nofun, fun ⟨value, h⟩ => absurd h (hform value _)⟩

theorem isCondemned_iff {n : Tree} : n.isCondemned = true ↔ n.Freezes := by
  unfold isCondemned
  split
  · rename_i test body hform
    rw [Bool.and_eq_true, isTrueLiteral_iff, Bool.not_eq_true', ← Bool.not_eq_true, containsAwait_iff]
    constructor
    · rintro ⟨⟨value, htest⟩, hawait⟩
      exact ⟨⟨test, body, value, hform, htest⟩, fun m hm hk => hawait ⟨m, hm, hk⟩⟩
    · rintro ⟨⟨test', body', value, hform', htest⟩, hsilent⟩
      rw [hform] at hform'
      cases hform'
      exact ⟨⟨value, htest⟩, fun ⟨m, hm, hk⟩ => hsilent m hm hk⟩
  · rename_i hform
    exact ⟨nofun, fun ⟨⟨test, body, _, h, _⟩, _⟩ => absurd h (hform test body)⟩

theorem Freezes.isLoop {n : Tree} (h : n.Freezes) : n.IsLoop := by
  obtain ⟨test, body, _, hform, _⟩ := h.endless
  rw [IsLoop, kind, hform]
  rfl

/-! ## Which loops the search finds -/

theorem into_sublist (n : Tree) : List.Sublist (Descent.throughBodies.into n) n.children := by
  obtain ⟨form, span⟩ := n
  cases form with
  | whileStatement test body => exact List.sublist_cons_self test [body]
  | _ => exact .refl _

/-- A child that the search leaves out is the test of a loop. -/
theorem mem_into {n c : Tree} (hc : c ∈ n.children) :
    c ∈ Descent.throughBodies.into n ∨ ∃ body, n.form = .whileStatement c body := by
  obtain ⟨form, span⟩ := n
  cases form with
  | whileStatement test body =>
    rcases List.mem_cons.mp hc with rfl | hc
    · exact .inr ⟨body, rfl⟩
    · exact .inl hc
  | _ => exact .inl hc

theorem mem_preorder_of_outsideTests {n w : Tree} (hw : w ∈ n.nodes) :
    n.OutsideTests w → w ∈ n.preorder .throughBodies := by
  induction n using Node.induction with
  | step n ih =>
    intro hout
    rw [mem_preorder_iff]
    rcases mem_nodes_iff.mp hw with rfl | ⟨c, hc, hw⟩
    · exact .inl rfl
    · have hrest := ih c hc hw fun v hv => hout v (mem_nodes_of_mem_children hc hv)
      rcases mem_into hc with hinto | ⟨body, hform⟩
      · exact .inr ⟨c, hinto, hrest⟩
      · exact absurd hw (hout n (mem_nodes_self n) c body hform)

theorem outsideTests_of_mem_preorder {source : Text} {n w : Tree} (hw : w.IsLoop) :
    n.Arranged source → w ∈ n.preorder .throughBodies → n.OutsideTests w := by
  induction n using Node.induction with
  | step n ih =>
    intro h hmem v hv test body hform hwtest
    have htest : test ∈ v.children := by rw [children, hform]; exact List.mem_cons_self
    have hwv : w ∈ v.nodes := mem_nodes_of_mem_children htest hwtest
    -- the loop itself is not inside any of its children
    have hself : ∀ c ∈ n.children, w ∈ c.nodes → w ≠ n := by
      rintro c hc hwc rfl
      exact absurd (h.lt_of_isLoop hw hc hwc) (Nat.lt_irrefl _)
    rcases mem_nodes_iff.mp hv with rfl | ⟨c, hc, hv⟩
    · rcases mem_preorder_iff.mp hmem with rfl | ⟨c, hc, hwc⟩
      · exact hself test htest hwtest rfl
      · have hleads : [test, body].Pairwise Leads := by
          have := h.leads
          rwa [children, hform] at this
        rw [Descent.throughBodies] at hc
        simp only [hform, List.mem_singleton] at hc
        subst hc
        have := (List.pairwise_cons.mp hleads).1 c List.mem_cons_self
        exact absurd (this w hwtest w (mem_nodes_of_mem_preorder hwc) hw hw) (Nat.lt_irrefl _)
    · have hwc : w ∈ c.nodes := mem_nodes_trans hwv hv
      rcases mem_preorder_iff.mp hmem with rfl | ⟨c', hc', hwc'⟩
      · exact hself c hc hwc rfl
      · have hc' := (into_sublist n).subset hc'
        obtain rfl := h.eq_of_mem_nodes hw hc hc' hwc (mem_nodes_of_mem_preorder hwc')
        exact ih c hc (h.children c hc).arranged hwc' v hv test body hform hwtest

end Node

/-! ## The check -/

/-- A loop of the script that the check is to find. -/
structure Program.Condemns (p : Program) (loop : Tree) : Prop where
  mem : loop ∈ p.root.nodes
  outside : p.root.OutsideTests loop
  freezes : loop.Freezes

theorem condemns_iff {source : Text} {p : Program} (h : p.root.Arranged source) {loop : Tree} :
    p.Condemns loop ↔ loop ∈ p.root.preorder .throughBodies ∧ loop.isCondemned = true := by
  rw [Node.isCondemned_iff]
  constructor
  · rintro ⟨hmem, hout, hfreezes⟩
    exact ⟨Node.mem_preorder_of_outsideTests hmem hout, hfreezes⟩
  · rintro ⟨hmem, hfreezes⟩
    exact ⟨Node.mem_nodes_of_mem_preorder hmem,
      Node.outsideTests_of_mem_preorder hfreezes.isLoop h hmem, hfreezes⟩

/-- What the search returns begins before every other condemned loop. -/
theorem first_of_unsafeLoop? {source : Text} {p : Program} (h : p.root.Arranged source) {loop : Tree}
    (hfound : p.unsafeLoop? = some loop) {other : Tree} (hother : p.Condemns other) :
    other = loop ∨ loop.span.start < other.span.start := by
  obtain ⟨hcond, before, after, hsplit, hbefore⟩ := List.find?_eq_some_iff_append.mp hfound
  obtain ⟨hmem, hcond'⟩ := (condemns_iff h).mp hother
  have horder := h.preorder_precedes Node.into_sublist
  rw [hsplit] at hmem horder
  rcases List.mem_append.mp hmem with hmem | hmem
  · have := hbefore other hmem
    simp [hcond'] at this
  · rcases List.mem_cons.mp hmem with rfl | hmem
    · exact .inl rfl
    · have := (List.pairwise_cons.mp (List.pairwise_append.mp horder).2.1).1 other hmem
      exact .inr (this (Node.isCondemned_iff.mp hcond).isLoop (Node.isCondemned_iff.mp hcond').isLoop)

theorem checkLoops_of_read {source filename : Text} {p : Program}
    (h : Program.read source filename = .ok p) :
    checkLoops source filename = .ok (p.unsafeLoop?.map fun loop =>
      ⟨source.lineAt loop.span.start, source.columnAt loop.span.start, filename⟩) := by
  obtain ⟨-, -, -, -, -, hsource, hfilename⟩ := settles_of_parse (read_eq_ok_iff.mp h)
  simp only [checkLoops, h, Except.map, Program.loopFinding?, Program.lineOf, Program.columnOf, hsource,
    hfilename]

/-- **The loop check is exact.** A script that can be read passes if and only if none of its loops that
lie outside the tests of other loops freezes. Otherwise the finding is the line and the column of the
one that begins first, and the word `while` stands there. -/
theorem checkLoops_exact {source filename : Text} {p : Program}
    (h : Program.read source filename = .ok p) :
    (checkLoops source filename = .ok none ↔ ∀ loop, ¬ p.Condemns loop) ∧
    ((∃ loop, p.Condemns loop) → ∃ loop, p.Condemns loop ∧
      (∀ other, p.Condemns other → other = loop ∨ loop.span.start < other.span.start) ∧
      checkLoops source filename =
        .ok (some ⟨source.lineAt loop.span.start, source.columnAt loop.span.start, filename⟩) ∧
      Opens source "while" loop.span.start) := by
  have harranged : p.root.Arranged source := arranged_of_parse (read_eq_ok_iff.mp h)
  rw [checkLoops_of_read h]
  cases hfound : p.unsafeLoop? with
  | none =>
    have hnone : ∀ loop, ¬ p.Condemns loop := by
      intro loop hloop
      obtain ⟨hmem, hcond⟩ := (condemns_iff harranged).mp hloop
      exact absurd hcond (List.find?_eq_none.mp hfound loop hmem)
    exact ⟨⟨fun _ => hnone, fun _ => rfl⟩, fun ⟨loop, hloop⟩ => absurd hloop (hnone loop)⟩
  | some loop =>
    have hloop : p.Condemns loop :=
      (condemns_iff harranged).mpr ⟨List.mem_of_find?_eq_some hfound, List.find?_some hfound⟩
    refine ⟨⟨nofun, fun hnone => absurd hloop (hnone loop)⟩, fun _ => ⟨loop, hloop, ?_, rfl, ?_⟩⟩
    · exact fun other hother => first_of_unsafeLoop? harranged hfound hother
    · exact harranged.opens_of_isLoop hloop.mem hloop.freezes.isLoop

/-- A script that freezes at once. -/
def Program.endless : Program where
  body := [⟨.whileStatement ⟨.literal (.boolean true) "true", ⟨6, 10⟩⟩ ⟨.emptyStatement, ⟨11, 12⟩⟩, ⟨0, 12⟩⟩]
  source := "while(true);"
  filename := "endless.js"

theorem parse_endless : parse "while(true);" "endless.js" = .ok .endless := by
  have heval : scriptGrammar.eval 30 .program (Cursor.start (Text.ofString "while(true);")) = some (.found
      [⟨.whileStatement ⟨.literal (.boolean true) "true", ⟨6, 10⟩⟩ ⟨.emptyStatement, ⟨11, 12⟩⟩, ⟨0, 12⟩⟩]
      ((Cursor.start _).advance 12)) := by rfl
  exact parse_of_eval (by decide) heval (by decide) rfl

theorem checkLoops_exact_endless : ∃ loop, Program.read "while(true);" "endless.js" = .ok .endless ∧
    Program.endless.Condemns loop ∧ loop.span = ⟨0, 12⟩ ∧
    checkLoops "while(true);" "endless.js" = .ok (some ⟨1, 1, "endless.js"⟩) := by
  have hread := read_eq_ok_iff.mpr parse_endless
  obtain ⟨loop, hloop⟩ : ∃ loop, Program.endless.body = [loop] := ⟨_, rfl⟩
  have hfreezes : loop.Freezes := by
    cases hloop
    refine ⟨⟨_, _, _, rfl, rfl⟩, fun n hn => ?_⟩
    rcases Node.mem_nodes_iff.mp hn with rfl | ⟨c, hc, hn⟩
    · nofun
    · rcases List.mem_cons.mp hc with rfl | hc
      · rcases Node.mem_nodes_iff.mp hn with rfl | ⟨_, hc, _⟩
        · nofun
        · cases hc
      · obtain rfl := List.mem_singleton.mp hc
        rcases Node.mem_nodes_iff.mp hn with rfl | ⟨_, hc, _⟩
        · nofun
        · cases hc
  have hcond : Program.endless.Condemns loop := by
    refine (condemns_iff (arranged_of_parse parse_endless)).mpr ⟨?_, Node.isCondemned_iff.mpr hfreezes⟩
    cases hloop
    exact Node.mem_preorder_iff.mpr (.inr ⟨_, List.mem_cons_self, Node.mem_preorder_iff.mpr (.inl rfl)⟩)
  obtain ⟨first, hfirst, hleast, hcheck, -⟩ := (checkLoops_exact hread).2 ⟨loop, hcond⟩
  cases hloop
  obtain rfl := (hleast _ hcond).resolve_right (Nat.not_lt_zero _)
  exact ⟨_, hread, hcond, rfl, hcheck⟩

end ScriptAudit
