import SurfaceTree.Proofs.Printing.Lines

namespace SurfaceTree

variable {E R E' R' : Type}

/-- The scopes that a node itself has. Those in its expression slots are not among them. -/
def Kind.scopes : (k : Kind) → k.Tree E R → List (Scope E R)
  | scope, n => [n]
  | component, n => [n.scope]
  | expr, n => n.scopes
  | _, _ => []

/-- A scope is in a node if it is the node, if it is the body of a component or a builder without a
name, or if it is in an expression in one of the slots. -/
inductive Scope.Within (s : Scope (Expr R) R) : (k : Kind) → Node R k → Prop where
  | own {k : Kind} {n : Node R k} (here : s ∈ k.scopes n) : Within s k n
  | slot {k : Kind} {n : Node R k} {e : Expr R} (inside : .exp e ∈ k.leaves n)
      (deeper : Within s .expr e.form) : Within s k n

/-- A scope in a node has something in it. -/
def Node.HasFilledScope (k : Kind) (n : Node R k) : Prop :=
  ∃ s : Scope (Expr R) R, s.Within k n ∧ s.isFilled

theorem Node.hasFilledScope_iff {k : Kind} {n : Node R k} :
    HasFilledScope k n ↔ (k.scopes n).any Scope.isFilled = true ∨
      ∃ e, .exp e ∈ k.leaves n ∧ HasFilledScope .expr e.form := by
  constructor
  · rintro ⟨s, here | ⟨inside, deeper⟩, filled⟩
    · exact .inl (List.any_eq_true.mpr ⟨s, here, filled⟩)
    · exact .inr ⟨_, inside, s, deeper, filled⟩
  · rintro (own | ⟨e, inside, s, deeper, filled⟩)
    · obtain ⟨s, here, filled⟩ := List.any_eq_true.mp own
      exact ⟨s, .own here, filled⟩
    · exact ⟨s, .slot inside deeper, filled⟩

theorem Scope.isFilled_map (f : E → E') (g : R → R') (n : Scope E R) :
    (n.map f g).isFilled = n.isFilled := by
  have definitions : (n.map f g).allDefinitions
      = n.allDefinitions.map fun entry => (entry.1, entry.2.map f g) := by
    simp [allDefinitions, map, VisibilityTable.toList, VisibilityTable.map, Function.comp_def]
  simp only [isFilled, definitions]
  simp [map]

theorem Kind.any_isFilled_map (f : E → E') (g : R → R') (k : Kind) (n : k.Tree E R) :
    (k.scopes (k.map f g n)).any Scope.isFilled = (k.scopes n).any Scope.isFilled := by
  rw [map_eq_rewrite]
  cases k with
  | scope => simp [scopes, rewrite, Scope.isFilled_map]
  | component => simp [scopes, rewrite, Component.map, Scope.isFilled_map]
  | expr => cases n <;> simp [scopes, rewrite, Form.map, Form.scopes, Scope.isFilled_map]
  | _ => rfl

variable {look : Lookups} {grouped : Bool}

theorem Kind.breaks_doc? (plain : look.Plain) {k : Kind} {n : k.Tree Doc Doc} {d : Doc}
    (printed : k.doc? look n = some d) (steady : ∀ leaf ∈ k.leaves n, leaf.doc.Steady) :
    d.breaks grouped =
      ((k.scopes n).any Scope.isFilled || (k.leaves n).any fun leaf => leaf.doc.breaks true) := by
  cases k with
  | truth | builder | operator => cases printed
  | ref =>
    cases printed
    have here : d.breaks grouped = d.breaks true := steady _ (List.mem_singleton_self _) grouped
    simp [scopes, leaves, Leaf.doc, here]
  | span =>
    cases printed
    exact Span.breaks_doc plain n grouped
  | literal =>
    cases printed
    exact n.breaks_doc grouped
  | entry =>
    cases printed
    exact n.breaks_doc plain steady
  | field =>
    cases printed
    exact n.breaks_doc plain steady
  | fields =>
    cases printed
    exact n.breaks_doc plain steady
  | case =>
    cases printed
    exact n.breaks_doc plain steady
  | definition =>
    cases printed
    exact n.breaks_doc plain steady
  | imported =>
    cases printed
    have target : n.doc.breaks grouped = _ := n.breaks_doc (steady _ (List.mem_singleton_self _))
    simp [scopes, leaves, Import.leaves, Leaf.doc, target]
  | proof =>
    cases printed
    simp [scopes, leaves, Proof.leaves, Leaf.doc, n.breaks_doc]
  | precedence =>
    cases printed
    have operator : n.doc.breaks grouped = _ := n.breaks_doc (steady _ (List.mem_singleton_self _))
    simp [scopes, leaves, Precedence.leaves, Leaf.doc, operator]
  | scope =>
    cases printed
    rw [n.breaks_doc, scopes, List.any_cons, List.any_nil, Bool.or_false]
    exact (n.isFilled_or_any _).symm
  | component =>
    cases printed
    rw [n.breaks_doc plain, scopes, List.any_cons, List.any_nil, Bool.or_false]
    exact (n.scope.isFilled_or_any _).symm
  | pattern =>
    cases printed
    exact n.breaks_doc plain steady
  | item =>
    cases printed
    exact n.breaks_doc plain steady
  | expr =>
    cases printed
    exact n.breaks_doc plain steady

theorem Phase.breaks_doc (plain : look.Plain) (p : Phase) (r : p.Ref) :
    (Reference.doc look r).breaks grouped = false := by
  cases p with
  | parsed => exact plain.breaks_name r grouped
  | resolved => exact Symbol.breaks_doc plain r grouped

/-- A node has a line break if a scope in it has something in it, given that this is so of the
expressions in its slots. It is so whether the node is in a flat group or not. -/
theorem Node.breaks_of_slots (plain : look.Plain) {p : Phase} {k : Kind} {n : Node p.Ref k}
    {d : Doc} (printed : doc? look k n = some d)
    (slots : ∀ e, .exp e ∈ k.leaves n →
      ∀ grouped, (e.doc look).breaks grouped ↔ HasFilledScope .expr e.form) :
    d.breaks grouped ↔ HasFilledScope k n := by
  have steady : ∀ leaf ∈ k.leaves (k.map (Expr.doc look) (Reference.doc look) n),
      leaf.doc.Steady := by
    intro leaf member grouped
    rw [k.leaves_map, List.mem_map] at member
    obtain ⟨leaf, inside, rfl⟩ := member
    cases leaf with
    | exp e => exact Bool.eq_iff_iff.mpr ((slots e inside grouped).trans (slots e inside true).symm)
    | ref r => exact (Phase.breaks_doc plain p r).trans (Phase.breaks_doc plain p r).symm
  rw [Kind.breaks_doc? plain printed steady, Kind.any_isFilled_map, Bool.or_eq_true,
    hasFilledScope_iff, k.leaves_map, List.any_map]
  refine or_congr_right ?_
  rw [List.any_eq_true]
  constructor
  · rintro ⟨leaf, inside, breaking⟩
    cases leaf with
    | exp e => exact ⟨e, inside, (slots e inside true).mp breaking⟩
    | ref r => exact absurd ((Phase.breaks_doc plain p r).symm.trans breaking) Bool.false_ne_true
  · rintro ⟨e, inside, filled⟩
    exact ⟨.exp e, inside, (slots e inside true).mpr filled⟩

theorem Expr.doc?_form {p : Phase} (e : Expr p.Ref) :
    Node.doc? look .expr e.form = some (e.doc look) := by
  cases e with
  | mk form =>
    rw [doc_mk, Node.doc?, Kind.map_eq_rewrite]
    rfl

theorem Expr.breaks_doc (plain : look.Plain) {p : Phase} (e : Expr p.Ref) :
    (e.doc look).breaks grouped ↔ Node.HasFilledScope .expr e.form := by
  induction e using Expr.induction generalizing grouped with
  | step form ih =>
    exact Node.breaks_of_slots plain (doc?_form (.mk form)) fun e inside _ => ih e inside

theorem Node.breaks_doc? (plain : look.Plain) {p : Phase} {k : Kind} {n : Node p.Ref k} {d : Doc}
    (printed : doc? look k n = some d) : d.breaks grouped ↔ HasFilledScope k n :=
  breaks_of_slots plain printed fun e _ _ => e.breaks_doc plain

/-- A document that is never on one line if `full`, and otherwise one line wherever it fits. -/
structure Doc.OneLineUnless (full : Prop) (d : Doc) : Prop where
  oneLine : ¬ full → ∃ line, d.OneLine line
  broken : full → d.Broken

theorem Doc.oneLineUnless_of_breaks {full : Prop} {d : Doc}
    (alike : ∀ grouped, d.breaks grouped ↔ full) : d.OneLineUnless full where
  oneLine free := ⟨_, oneLine_of_not_breaks (Bool.eq_false_iff.mpr (mt (alike false).mp free))⟩
  broken holds := broken_of_breaks ((alike true).mpr holds)

theorem Keyword.oneLine_doc {α : Type} [Keyword α] [LawfulKeyword α]
    (plain : ∀ a ∈ all (α := α), '\n' ∉ (spelling a).toList) (a : α) :
    (Keyword.doc a).OneLine (spelling a) :=
  Doc.oneLine_of_not_breaks (breaks_doc plain a false)

/-- Where names are spelled and places described without line breaks, a node that prints is on one
line wherever it fits: the same line for every width from its own on, and of exactly that many
characters. Only if a scope that is the node or anywhere in it has something in it, the node is
never on one line. Truths, builders and operators do not print on their own. -/
theorem Node.one_line_unless_filled (p : Phase) {look : Lookups} (plain : look.Plain) :
    (∀ (k : Kind) (n : Node p.Ref k), k ≠ .truth → k ≠ .builder → k ≠ .operator →
      ∃ d, doc? look k n = some d ∧
        (∀ config, format? look config k n = some (d.render config)) ∧
        d.OneLineUnless (HasFilledScope k n)) ∧
    (∀ e : Expr p.Ref, (e.doc look).OneLineUnless (HasFilledScope .expr e.form)) ∧
    (∀ v : Visibility, (Keyword.doc v).OneLine (Keyword.spelling v)) ∧
    (∀ k : TruthKind, (Keyword.doc k).OneLine (Keyword.spelling k)) ∧
    (∀ k : BuilderKind, (Keyword.doc k).OneLine (Keyword.spelling k)) ∧
    (∀ b : Binder, (Keyword.doc b).OneLine (Keyword.spelling b)) ∧
    (∀ f : Fixity, (Keyword.doc f).OneLine (Keyword.spelling f)) ∧
    ∀ r : Relation, (Keyword.doc r).OneLine (Keyword.spelling r) := by
  refine ⟨fun k n noTruth noBuilder noOperator => ?_, fun e => ?_,
    Keyword.oneLine_doc (by decide), Keyword.oneLine_doc (by decide),
    Keyword.oneLine_doc (by decide), Keyword.oneLine_doc (by decide),
    Keyword.oneLine_doc (by decide), Keyword.oneLine_doc (by decide)⟩
  · obtain ⟨d, printed⟩ : ∃ d, doc? look k n = some d := by
      cases k with
      | truth => exact absurd rfl noTruth
      | builder => exact absurd rfl noBuilder
      | operator => exact absurd rfl noOperator
      | _ => exact ⟨_, rfl⟩
    refine ⟨d, printed, fun config => ?_, Doc.oneLineUnless_of_breaks fun _ => ?_⟩
    · rw [format?, printed, Option.map_some]
    · exact breaks_doc? plain printed
  · exact Doc.oneLineUnless_of_breaks fun _ => e.breaks_doc plain

/-- A builder without a name whose scope is empty, and a component that imports it. -/
theorem Node.one_line_unless_filled_import :
    let look : Lookups := ⟨fun _ => "x", fun _ => "here"⟩
    let empty : Scope (Expr Name) Name := .empty .dummy ⟨0⟩
    let builder : Node Name .expr := .anonymous .dummy .module [] .empty empty
    let importing : Node Name .component :=
      ⟨none, { empty with imports := [⟨.dummy, .pub, .mk builder⟩] }⟩
    look.Plain ∧
    (¬ HasFilledScope .expr builder ∧ ∀ config : LayoutConfig, 19 ≤ config.maxWidth →
      format? look config .expr builder = some (.ok "module() scope#0 \x7b\x7d")) ∧
    HasFilledScope .component importing ∧ ∀ config text,
      format? look config .component importing = some (.ok text) → '\n' ∈ text.toList := by
  have builds : ∃ d, doc? ⟨fun _ => "x", fun _ => "here"⟩ .expr
      (.anonymous .dummy .module [] .empty (.empty .dummy ⟨0⟩) : Node Name .expr) = some d ∧
        d.render ⟨19, 4⟩ = .ok "module() scope#0 \x7b\x7d" ∧ d.flatWidth ≤ 19 ∧
          ∀ config, d.depth config ≤ Doc.unbounded :=
    ⟨_, rfl, rfl, by decide, fun _ => Nat.zero_le _⟩
  intro look empty builder importing
  have plain : look.Plain := by
    refine ⟨fun _ => ?_, fun _ => ?_⟩
    · exact (by decide : '\n' ∉ "x".toList)
    · exact (by decide : '\n' ∉ "here".toList)
  have free : ¬ HasFilledScope .expr builder := by
    rw [hasFilledScope_iff]
    rintro (own | ⟨e, inside, -⟩)
    · cases own
    · cases inside
  have full : HasFilledScope .component importing := hasFilledScope_iff.mpr (.inl rfl)
  obtain ⟨nodes, -⟩ := one_line_unless_filled .parsed plain
  refine ⟨plain, ⟨free, fun config wide => ?_⟩, full, fun config text done => ?_⟩
  · obtain ⟨d, printed, shown, lines⟩ := nodes .expr builder nofun nofun nofun
    obtain ⟨line, one⟩ := lines.oneLine free
    obtain ⟨d', built, done, small, flush⟩ := builds
    cases Option.some.inj (built.symm.trans printed)
    obtain ⟨-, written⟩ := (one.render ⟨19, 4⟩ _ small).mp done
    rw [shown, (one.render config _ (small.trans wide)).mpr ⟨flush config, written⟩]
  · obtain ⟨d, -, shown, lines⟩ := nodes .component importing nofun nofun nofun
    exact (lines.broken full).feed config text (Option.some.inj ((shown config).symm.trans done))

end SurfaceTree
