import Lox.Token.Lexer
import Lox.Proofs.Scanning.Characters

/-! Scanning in counted steps. The scanner goes on with what a piece leaves of the source, which the
kernel does not unfold. A scanner that counts its steps down finds the same pieces wherever it may
take a step for each byte, so the scan of a written text can be computed.
-/

namespace Lox

namespace Lexer

/-- The pieces that `steps` steps cut off a source. -/
def piecesWithin : (steps : Nat) → List UInt8 → List Piece
  | 0, _ => []
  | _ + 1, [] => []
  | steps + 1, first :: rest =>
    let (content, size) := recognize first rest
    ⟨first :: rest.take size, content⟩ :: piecesWithin steps (rest.drop size)

/-- A piece has a byte at least, so a step for each byte is enough. By induction over the steps. -/
theorem pieces_eq_piecesWithin {steps : Nat} {bytes : List UInt8} (enough : bytes.length ≤ steps)
    : pieces bytes = piecesWithin steps bytes := by
  induction steps generalizing bytes with
  | zero =>
      rw [List.eq_nil_of_length_eq_zero (Nat.le_zero.mp enough), pieces, piecesWithin]
  | succ steps ih =>
      cases bytes with
      | nil => rw [pieces, piecesWithin]
      | cons first rest =>
          have short : (rest.drop (recognize first rest).2).length ≤ steps := by
            rw [List.length_drop]
            rw [List.length_cons] at enough
            omega
          rw [pieces, piecesWithin]
          exact congrArg _ (ih short)

end Lexer

/-- The scan of a text, computed. -/
theorem Scan.ofText_eq (text : String)
    : Scan.ofText text
        = let bytes := text.toList.flatMap String.utf8EncodeChar
          ⟨Lexer.items 1 (Lexer.piecesWithin bytes.length bytes),
            Token.endOfInput (1 + Lexer.newlines bytes)⟩ := by
  unfold Scan.ofText Scan.ofBytes
  rw [Text.encode_eq, Lexer.pieces_eq_piecesWithin (Nat.le_refl _)]

end Lox
