import BlockExchange.Client.Error

namespace BlockExchange.ClientSettings

def ofText (text : String) : Except ClientError ClientSettings :=
  match ofJson? text with
  | some s => .ok s
  | none => .error .malformed

def ofFile (content : Option Bytes) : Except ClientError ClientSettings :=
  match content.bind Bytes.toText? with
  | some text => ofText text
  | none => .error .unreadable

end BlockExchange.ClientSettings
