
namespace Bytesmith.Text

def padRight (width : Nat) (s : String) : String :=
  s ++ String.ofList (List.replicate (width - s.length) ' ')

/-- Decimal text of at least the given width; a minus sign counts and stands before the zeros. -/
def zeroPadded (width : Nat) (n : Int) : String :=
  let digits := toString n.natAbs
  let sign := if n < 0 then "-" else ""
  sign ++ String.ofList (List.replicate (width - (sign.length + digits.length)) '0') ++ digits

def indent (level : Nat) : String :=
  String.join (List.replicate level "    ")

def unlines (lines : List String) : String :=
  String.join (lines.map (· ++ "\n"))

end Bytesmith.Text
