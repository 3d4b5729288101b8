import SurfaceTree.Proofs.Canonical.Fingerprint
import SurfaceTree.Proofs.Codec.Addressable
import SurfaceTree.Proofs.Codec.Json
import SurfaceTree.Proofs.Codec.RoundTrip

namespace SurfaceTree

/-- The elements of references are short. -/
theorem Phase.addressable_toElement (p : Phase) (r : p.Ref) :
    (Reference.toElement r).Addressable := by
  cases p with
  | parsed => exact Name.addressable_toElement r
  | resolved => exact Symbol.addressable_toElement r

/-- The element of an expression is addressable if its key is. -/
theorem Expr.addressable_encode {p : Phase} (e : Expr p.Ref) (fits : e.key.Addressable) :
    e.encode.Addressable := by
  induction e using induction with
  | step form ih =>
    rw [key_mk] at fits
    rw [encode_mk]
    refine form.addressable_toElement (fun leaf member => ?_) fits
    cases leaf with
    | exp e => exact ih e member
    | ref r => exact fun _ => p.addressable_toElement r

namespace Node

variable {p : Phase} {k : Kind}

theorem addressable_encode {n : Node p.Ref k} (fits : Addressable k n) :
    (encode k n).Addressable := by
  refine k.addressable_toElement n (fun leaf _ => ?_) fits
  cases leaf with
  | exp e => exact e.addressable_encode
  | ref r => exact fun _ => p.addressable_toElement r

theorem decode_written (n : Node p.Ref k) : decode k (encode k n) = .ok n := by
  refine k.decode_toElement n fun leaf _ => ?_
  cases leaf with
  | exp e => exact e.decode_encode_of p.decode_toElement
  | ref r => exact p.decode_toElement r

/-- A node is read back from its text in either style if no more arrays and objects are nested in
the text than may be. If there are more, the text is refused; another node is never read. -/
theorem ofJson_toJson (p : Phase) (k : Kind) (style : Json.Style) (n : Node p.Ref k) :
    ofJson k (toJson style k n)
      = if (encode k n).nesting ≤ Json.maxNesting then .ok n else .error .json := by
  rw [ofJson, toJson, Json.read?_write]
  by_cases fits : (encode k n).nesting ≤ Json.maxNesting
  · simp only [if_pos fits, decode_written, Except.mapError]
  · simp only [if_neg fits]

/-- A node is read from its own bytes, whatever follows them. -/
theorem ofBytes_append {n : Node p.Ref k} (fits : Addressable k n) (rest : List UInt8) :
    ofBytes k (toBytes k n ++ rest) = .ok n := by
  rw [ofBytes, toBytes, Bytes.read_write_append (addressable_encode fits)]
  simp only [decode_written, Except.mapError]

/-- A node is read off the front of its bytes, whatever follows them. If any of the bytes at the end
are missing, it is found that they end too early. So the bytes of a node never begin with those of
another node of its kind. -/
theorem ofBytes_toBytes (p : Phase) (k : Kind) (n : Node p.Ref k) (fits : Addressable k n) :
    (∀ rest, ofBytes k (toBytes k n ++ rest) = .ok n) ∧
    (∀ part, part <+: toBytes k n → part ≠ toBytes k n →
      ofBytes (R := p.Ref) k part = .error (.bytes .unexpectedEnd)) ∧
    ∀ n' : Node p.Ref k, Addressable k n' → toBytes k n' <+: toBytes k n → n' = n := by
  refine ⟨ofBytes_append fits, ?_, ?_⟩
  · rintro part ⟨missing, split⟩ proper
    have some : missing ≠ [] := by
      rintro rfl
      exact proper (by rwa [List.append_nil] at split)
    rw [ofBytes, Bytes.read_part (addressable_encode fits) split.symm some]
  · rintro n' fits' ⟨rest, extended⟩
    have read := ofBytes_append fits []
    rw [List.append_nil, ← extended, ofBytes_append fits' rest] at read
    exact Except.ok.inj read

/-- The bytes of a block of two definitions, with a value and without one, in front of another byte
and without their last one. -/
theorem ofBytes_toBytes_block :
    let value : Expr Name := .mk (.reference ⟨3, 4⟩ ⟨8⟩)
    let block : Node Name .expr := .block ⟨1, 9⟩
      [.declaration ⟨⟨2, 5⟩, .bind .dummy ⟨7⟩, some value⟩,
        .declaration ⟨⟨6, 8⟩, .bind .dummy ⟨9⟩, none⟩]
    ofBytes .expr (toBytes .expr block ++ [0]) = .ok block ∧
      ofBytes (R := Name) .expr (toBytes .expr block).dropLast = .error (.bytes .unexpectedEnd) := by
  intro value block
  obtain ⟨whole, cut, -⟩ := ofBytes_toBytes .parsed .expr block (by decide +kernel)
  refine ⟨whole [0], cut _ (List.dropLast_prefix _) fun same => ?_⟩
  have length := congrArg List.length same
  have some : 0 < (toBytes .expr block).length := List.length_pos_iff.mpr (Bytes.write_ne_nil _)
  rw [List.length_dropLast] at length
  omega

end Node

end SurfaceTree
