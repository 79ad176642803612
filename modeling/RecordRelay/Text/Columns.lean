/-! Texts filled up with spaces to a number of characters. Longer texts stay as they are. -/
namespace RecordRelay.Text

def padEnd (width : Nat) (text : String) : String :=
  text ++ String.ofList (List.replicate (width - text.length) ' ')

def padStart (width : Nat) (text : String) : String :=
  String.ofList (List.replicate (width - text.length) ' ') ++ text

end RecordRelay.Text
