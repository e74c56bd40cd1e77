import Mathlib.Data.List.Basic

/-! Texts as bytes, and their comparison without an early end. -/
namespace Aeroric.Bytes

def ofText (text : String) : List UInt8 := text.toUTF8.data.toList

def constantTimeEq (left right : List UInt8) : Bool :=
  if left.isEmpty || left.length != right.length then false
  else (left.zip right).foldl (fun acc pair => acc ||| (pair.1 ^^^ pair.2)) 0 == 0

end Aeroric.Bytes
