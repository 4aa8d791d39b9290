/-
The texts of joints. The span of a joint goes from where its first operand starts to where its last one ends, and
brackets around these two are left out. So the text of the span is an expression if its brackets are balanced, and then
it gives this very node; if not, it is no expression at all (`spelledOut_of_parse`).
-/
import ScriptAudit.Proofs.Joints
import ScriptAudit.Proofs.ScriptShift
import ScriptAudit.Proofs.TreeLayout

namespace ScriptAudit

open ScriptGrammar

variable {source t : Text} {c next : Cursor source} {v : Sketch} {n : Tree}

/-! ## Texts that are expressions -/

/-- The whole text is an expression, and this is its tree. -/
def Text.IsExpression (t : Text) (n : Tree) : Prop :=
  ∃ v next, Settles scriptGrammar (ref .expr) (Cursor.start t) (.found v next) ∧ next.atEnd = true ∧
    Sketch.read v = .ok n

/-- The text of the node, taken as an expression of its own, gives the node. -/
def SpelledOut (source : Text) (n : Tree) : Prop :=
  ∃ m, (source.slice n.span).IsExpression m ∧ m.shift n.span.start = n

theorem Text.IsExpression.isBalanced (h : t.IsExpression n) : t.isBalanced = true := by
  obtain ⟨v, next, ⟨d, hread⟩, hend, -⟩ := h
  have hscans : Scans [.code] (Cursor.start t).rest [.code] next.rest := Reads.scans hread rfl
  rw [List.isEmpty_iff.mp hend] at hscans
  exact Text.isBalanced_iff.mpr hscans

/-- A text that stands elsewhere is an expression if it is one there. -/
theorem Finds.exists_isExpression {e : Nat} (h : Finds (ref .expr) (c.cut e) v (next.cut e))
    (hend : (next.cut e).rest = []) (hread : Sketch.read v = .ok n) :
    ∃ m, (source.slice ⟨c.offset, e⟩).IsExpression m ∧ m.shift c.offset = n := by
  have hapart : (Cursor.start (source.slice ⟨c.offset, e⟩)).Apart c.offset (c.cut e) := ⟨rfl, List.drop_take⟩
  have hinside : (Cursor.start (source.slice ⟨c.offset, e⟩)).offset ≤ (source.slice ⟨c.offset, e⟩).length :=
    Nat.zero_le _
  rcases finds_or_lacks .expr hinside with ⟨u, last, hfound⟩ | hlacks
  · cases Settles.related shifts_of_rule .ref hapart hfound h with
    | found value place =>
      have hmoved : Node.shift c.offset <$> Sketch.read u = .ok n := by
        rw [← Sketch.read_shift]
        exact (congrArg Sketch.read value).symm.trans hread
      cases hm : Sketch.read u with
      | error fault =>
        rw [hm] at hmoved
        cases hmoved
      | ok m =>
        rw [hm] at hmoved
        cases hmoved
        exact ⟨m, ⟨u, last, hfound, List.isEmpty_iff.mpr (place.rest.symm.trans hend), hm⟩, rfl⟩
  · cases Settles.related shifts_of_rule .ref hapart hlacks h

/-- **A joint is what its text gives**, if the brackets there are balanced. -/
theorem Joined.spelledOut (h : Joined source v) (hread : Sketch.read v = .ok n)
    (hbalanced : (source.slice n.span).isBalanced = true) : SpelledOut source n := by
  obtain ⟨c, next, hc, hjoint⟩ := h
  have hspan : n.span = v.span := (Sketch.of_read hread).2
  have hwhole : v.span = ⟨c.offset, next.offset⟩ := hjoint.span_eq hc (hspan ▸ hbalanced)
  rw [SpelledOut, hspan, hwhole]
  exact (hjoint.finds_expr hc).exists_isExpression next.rest_cut_self hread

/-! ## Scripts -/

/-- Every node of a tree comes from one of its sketch. -/
theorem Sketch.exists_of_mem_nodes {m : Tree} (h : read v = .ok n) (hm : m ∈ n.nodes) :
    ∃ u ∈ v.nodes, read u = .ok m := by
  induction v using Node.induction generalizing n with
  | step v ih =>
    rcases Node.mem_nodes_iff.mp hm with rfl | ⟨child, hchild, hm⟩
    · exact ⟨v, v.mem_nodes_self, h⟩
    · obtain ⟨u, hu, hread⟩ := exists_of_mem_readList (readList_children (of_read h).1) hchild
      obtain ⟨w, hw, hread⟩ := ih u hu hread hm
      exact ⟨w, Node.mem_nodes_of_mem_children hu hw, hread⟩

theorem exists_joined_of_parse {depth : Nat} {filename : Text} {p : Program}
    (h : parseWithin depth source filename = .ok p) (hn : n ∈ p.root.nodes) (hkind : n.kind.joins = true) :
    ∃ v, Joined source v ∧ Sketch.read v = .ok n := by
  obtain ⟨statements, next, ⟨d, hreads⟩, -, hread, -, -⟩ := settles_of_parse h
  have hall : EachJoint (Joined source) statements := allJoints_of_reads d .program _ _ _ hreads
  rcases Node.mem_nodes_iff.mp hn with rfl | ⟨child, hchild, hn⟩
  · cases hkind
  · rw [root_children] at hchild
    obtain ⟨s, hs, hread⟩ := Sketch.exists_of_mem_readList hread hchild
    obtain ⟨v, hv, hread⟩ := Sketch.exists_of_mem_nodes hread hn
    exact ⟨v, hall s hs v hv (Sketch.kind_of_read hread ▸ hkind), hread⟩

/-- **Where brackets allow it, the span of a node is its text.** The text of the span of an operation, a member or a
call is an expression if its brackets are balanced, and gives the node. Otherwise it is no expression. -/
theorem spelledOut_of_parse {depth : Nat} {filename : Text} {p : Program}
    (h : parseWithin depth source filename = .ok p) (hn : n ∈ p.root.nodes) (hkind : n.kind.joins = true) :
    ((source.slice n.span).isBalanced = true → SpelledOut source n) ∧
      ((source.slice n.span).isBalanced = false → ∀ m, ¬ (source.slice n.span).IsExpression m) := by
  obtain ⟨v, hjoined, hread⟩ := exists_joined_of_parse h hn hkind
  refine ⟨Joined.spelledOut hjoined hread, fun hunbalanced m hm => ?_⟩
  exact Bool.false_ne_true (hunbalanced.symm.trans hm.isBalanced)

namespace Program

/-- The member in `(a)+b.c`. -/
def bracketedLink : Tree :=
  ⟨.memberExpression ⟨.identifier "b", ⟨4, 5⟩⟩ ⟨.identifier "c", ⟨6, 7⟩⟩ false false, ⟨4, 7⟩⟩

/-- The sum in `(a)+b.c`. Its text is `a)+b.c`. -/
def bracketedSum : Tree := ⟨.binaryExpression ⟨.identifier "a", ⟨1, 2⟩⟩ .add bracketedLink, ⟨1, 7⟩⟩

def bracketed : Program := ⟨[⟨.expressionStatement bracketedSum, ⟨0, 7⟩⟩], "(a)+b.c", "bracketed.js"⟩

end Program

theorem parse_bracketed : parse "(a)+b.c" "bracketed.js" = .ok .bracketed := by
  have heval : scriptGrammar.eval 50 .program (Cursor.start (Text.ofString "(a)+b.c")) = some (.found
      [⟨.expressionStatement ⟨.binaryExpression ⟨.identifier "a", ⟨1, 2⟩⟩ .add ⟨.memberExpression
        ⟨.identifier "b", ⟨4, 5⟩⟩ ⟨.identifier "c", ⟨6, 7⟩⟩ false false, ⟨4, 7⟩⟩, ⟨1, 7⟩⟩, ⟨0, 7⟩⟩]
      ((Cursor.start _).advance 7)) := by rfl
  exact parse_of_eval (by decide) heval (by decide) rfl

theorem spelledOut_of_parse_bracketed : parse "(a)+b.c" "bracketed.js" = .ok .bracketed ∧
    (∀ m, ¬ (Text.slice "(a)+b.c" Program.bracketedSum.span).IsExpression m) ∧
      SpelledOut "(a)+b.c" Program.bracketedLink := by
  have hsum : Program.bracketedSum ∈ Program.bracketed.root.nodes :=
    Node.mem_nodes_of_mem_children List.mem_cons_self
      (Node.mem_nodes_of_mem_children List.mem_cons_self (Node.mem_nodes_self _))
  have hlink : Program.bracketedLink ∈ Program.bracketed.root.nodes :=
    Node.mem_nodes_trans (Node.mem_nodes_of_mem_children (List.mem_cons_of_mem _ List.mem_cons_self)
      (Node.mem_nodes_self _)) hsum
  exact ⟨parse_bracketed, (spelledOut_of_parse parse_bracketed hsum rfl).2 rfl,
    (spelledOut_of_parse parse_bracketed hlink rfl).1 rfl⟩

end ScriptAudit
