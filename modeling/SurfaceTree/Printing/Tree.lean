import SurfaceTree.Printing.Lookups
import SurfaceTree.Text.Quoted
import SurfaceTree.Text.Shortest
import SurfaceTree.Tree.Kind

namespace SurfaceTree

/-- `{}`, after a blank. -/
def Doc.emptyBraces : Doc := .text " \x7b\x7d"

/-- A head and a braced body with an item a line. -/
def Doc.block (head : Doc) (items : List Doc) : Doc :=
  match items with
  | [] => .concat [head, .emptyBraces]
  | items =>
    .concat
      [head, .text " \x7b",
        .indented (.concat (items.map fun item => .concat [.hardLine, item, .text ";"])),
        .hardLine, .text "\x7d"]

/-- The document of a member of a vocabulary. -/
def Keyword.doc {α : Type} [Keyword α] (a : α) : Doc := .text (spelling a)

/-- A name prints as the string it stands for. -/
def Name.doc (look : Lookups) (n : Name) : Doc := look.name n

/-- A symbol prints as its name and the number of its scope. -/
def Symbol.doc (look : Lookups) (s : Symbol) : Doc :=
  .concat [look.name s.name, .text ("#" ++ toString s.scope.number)]

/-- A span prints as the place it describes. -/
def Span.doc (look : Lookups) (s : Span) : Doc := .text (look.locate s)

/-- A literal prints as it is read: numbers by their shortest digits, strings and characters
quoted. -/
def Literal.doc (look : Lookups) (l : Literal) : Doc :=
  match l.value with
  | .int value => .text (Digits.ofInt value.toInt)
  | .float bits => .text (Shortest.double bits)
  | .str name => .text (Quoted.string (look.spell name))
  | .char value => .text (Quoted.character value)

/-- A named part, such as a field and its value. -/
def Lookups.binding (look : Lookups) (sep : String) (name : Name) (value : Doc) : Doc :=
  .concat [look.name name, .text sep, value]

/-- Parenthesizes a pattern that would otherwise reach past its place. -/
def Pattern.atomic {E R : Type} (pattern : Pattern E R) (doc : Doc) : Doc :=
  match pattern with
  | .alternatives .. | .construct .. | .typed .. => .concat [.text "(", doc, .text ")"]
  | .split .. | .named .. | .bind .. | .literal .. => doc

mutual
/-- The document of a pattern. Constructors, types and names put brackets around parts that are not
atomic. -/
def Pattern.doc (look : Lookups) : Pattern Doc Doc → Doc
  | .alternatives _ choices =>
    .group (.join (.concat [.line, .text "| "]) (Pattern.docs look choices))
  | .construct _ head argument =>
    .concat [head, .text " ", argument.atomic (Pattern.doc look argument)]
  | .split _ fields strict =>
    .bracket "\x7b"
      (Pattern.docsOfRow look fields.row ++ if strict then [] else [.text ".."]) "," "\x7d"
  | .typed _ pattern type =>
    .concat [pattern.atomic (Pattern.doc look pattern), .text " : ", type]
  | .named _ name pattern =>
    .concat [look.name name, .text " @ ", pattern.atomic (Pattern.doc look pattern)]
  | .bind _ name => look.name name
  | .literal l => l.doc look

def Pattern.docs (look : Lookups) : List (Pattern Doc Doc) → List Doc
  | [] => []
  | p :: rest => Pattern.doc look p :: Pattern.docs look rest

def Pattern.docsOfRow (look : Lookups) :
    {names : List Name} → Row (Pattern Doc Doc) names → List Doc
  | _, .nil => []
  | _, .cons name p rest =>
    look.binding " = " name (Pattern.doc look p) :: Pattern.docsOfRow look rest
end

/-- Implicit entries stand in braces. -/
def Entry.doc (look : Lookups) (n : Entry Doc Doc) : Doc :=
  if n.implicit then .concat [.text "\x7b", n.pattern.doc look, .text "\x7d"]
  else n.pattern.doc look

/-- A field prints its default value behind its entry. -/
def Field.doc (look : Lookups) (n : Field Doc Doc) : Doc :=
  match n.default with
  | some default => .concat [n.entry.doc look, .text " = ", default]
  | none => n.entry.doc look

/-- The fields in declared order, which is part of their meaning. -/
def Fields.docs (look : Lookups) (sep : String) (n : Fields Doc Doc) : List Doc :=
  n.toList.map fun (name, field) => look.binding sep name (field.doc look)

/-- The document of a field list, in declared order. -/
def Fields.doc (look : Lookups) (n : Fields Doc Doc) : Doc :=
  .bracket "(" (n.docs look ": ") "," ")"

/-- A case breaks after its arrow if it does not fit. -/
def Case.doc (look : Lookups) (n : Case Doc Doc) : Doc :=
  .group (.concat [n.pattern.doc look, .text " =>", .indented (.concat [.line, n.body])])

/-- A definition prints its value, if it has one, behind an equals sign. -/
def Definition.doc (look : Lookups) (n : Definition Doc Doc) : Doc :=
  let head := Doc.concat [.text "def ", n.pattern.doc look]
  match n.init with
  | some init => .group (.concat [head, .text " =", .indented (.concat [.line, init])])
  | none => head

def Import.doc (n : Import Doc) : Doc :=
  .concat [Keyword.doc n.visibility, .text " import ", n.target]

def Proof.doc (n : Proof Doc Doc) : Doc :=
  .group (.concat [.text "proof ", n.fact, .text " =", .indented (.concat [.line, n.body])])

/-- A truth prints with the name it is bound under. -/
def Truth.doc (look : Lookups) (name : Name) (n : Truth Doc) : Doc :=
  let head := Doc.concat
    [Keyword.doc n.visibility, .text " ", Keyword.doc n.kind, .text " ", look.name name,
      .text " :", .indented (.concat [.line, n.prop])]
  match n.proof with
  | some proof => .group (.concat [head, .indented (.concat [.line, .text "by ", proof])])
  | none => .group head

/-- What an entity extends. -/
def Doc.supers (supers : List Doc) : Doc :=
  match supers with
  | [] => .nil
  | supers => .concat [.text " extends ", .join (.text ", ") supers]

/-- A builder prints with the name it is bound under. -/
def Builder.doc (look : Lookups) (name : Name) (n : Builder Doc Doc) : Doc :=
  .group (.concat
    [Keyword.doc n.visibility, .text " ", Keyword.doc n.kind, .text " ", look.name name,
      n.params.doc look, .supers n.supers, .text " =", .indented (.concat [.line, n.body])])

def Precedence.doc (n : Precedence Doc) : Doc :=
  .concat [Keyword.doc n.relation, .text "(", n.operator, .text ")"]

/-- An operator prints with the name it is bound under. -/
def Operator.doc (look : Lookups) (name : Name) (n : Operator Doc) : Doc :=
  .concat
    ([.text "syntax ", look.name name, .text " ", Keyword.doc n.fixity]
      ++ n.precedence.flatMap fun p => [.text " ", p.doc])

def Item.doc (look : Lookups) : Item Doc Doc → Doc
  | .statement e => e
  | .declaration d => d.doc look

/-- What a scope holds, in the order in which it prints. -/
def Scope.itemDocs (look : Lookups) (n : Scope Doc Doc) : List Doc :=
  n.imports.map Import.doc
    ++ n.operators.toList.map (fun (name, o) => o.doc look name)
    ++ n.builders.toList.map (fun (name, b) => b.doc look name)
    ++ n.allDefinitions.map (fun (v, d) => .concat [Keyword.doc v, .text " ", d.doc look])
    ++ n.truths.toList.map (fun (name, t) => t.doc look name)
    ++ n.proofs.map Proof.doc

/-- The document of a scope, with each of its parts on a line of its own. -/
def Scope.doc (look : Lookups) (n : Scope Doc Doc) : Doc :=
  .block (.text ("scope#" ++ toString n.id.number)) (n.itemDocs look)

/-- A component prints the name it is expected to export, and then its scope. -/
def Component.doc (look : Lookups) (n : Component Doc Doc) : Doc :=
  let head :=
    match n.expected with
    | some name => Doc.concat [.text "component ", look.name name, .text " "]
    | none => .text "component "
  .concat [head, n.scope.doc look]

/-- A head and its cases between braces. -/
def Doc.cases (head : Doc) (cases : List Doc) : Doc :=
  match cases with
  | [] => .concat [head, .emptyBraces]
  | cases =>
    .group (.concat
      [head, .text " \x7b",
        .indented (.concat [.line, .join (.concat [.line, .text "| "]) cases]),
        .line, .text "\x7d"])

/-- The document of a form. Outside the scope of an anonymous builder no line breaks but in
groups. -/
def Form.doc (look : Lookups) : Form Doc Doc → Doc
  | .block _ items => .bracket "\x7b" (items.map (Item.doc look)) ";" "\x7d"
  | .abstraction _ binder cases => .cases (Keyword.doc binder) (cases.map (Case.doc look))
  | .matching _ scrutinee cases =>
    .cases (.concat [.text "match ", scrutinee]) (cases.map (Case.doc look))
  | .ascription _ value type =>
    .group (.concat
      [.text "(", value, .text " :", .indented (.concat [.line, type]), .text ")"])
  | .chain _ items => .bracket "(" items "" ")"
  | .record _ fields =>
    .bracket "\x7b" (fields.toList.map fun (name, e) => look.binding " = " name e) "," "\x7d"
  | .recordType _ fields => .bracket "\x7b" (fields.docs look " : ") "," "\x7d"
  | .tuple _ items => .bracket "(" items "," ")"
  | .projection _ value path =>
    .concat (value :: path.flatMap fun field => [.text ".", look.name field])
  | .reference _ target => target
  | .application _ function argument =>
    .group (.concat [function, .text " with", .indented (.concat [.line, argument])])
  | .refinement _ value proposition =>
    .group (.concat [value, .indented (.concat [.line, .text "where ", proposition])])
  | .anonymous _ kind supers params body =>
    .concat [Keyword.doc kind, params.doc look, .supers supers, .text " ", body.doc look]
  | .literal l => l.doc look

/-- The document of a node. Truths, builders and operators print only under a name. -/
def Kind.doc? (look : Lookups) : (k : Kind) → k.Tree Doc Doc → Option Doc
  | ref, n => some n
  | span, n => some (n.doc look)
  | literal, n => some (n.doc look)
  | entry, n => some (n.doc look)
  | field, n => some (n.doc look)
  | fields, n => some (n.doc look)
  | case, n => some (n.doc look)
  | definition, n => some (n.doc look)
  | imported, n => some n.doc
  | proof, n => some n.doc
  | truth, _ => none
  | builder, _ => none
  | precedence, n => some n.doc
  | operator, _ => none
  | scope, n => some (n.doc look)
  | component, n => some (n.doc look)
  | pattern, n => some (n.doc look)
  | item, n => some (n.doc look)
  | expr, n => some (n.doc look)

end SurfaceTree
