import SignalDesk.Codec.Desk
import SignalDesk.Toml.Printer
import SignalDesk.Toml.Reader

namespace SignalDesk

/-- Why there is no configuration. -/
inductive ConfigFault where
  | malformed
  | unreadable (file : String)
  | invalid (file : String)

def ConfigFault.message : ConfigFault → String
  | .malformed => "Failed to parse desk config TOML"
  | .unreadable file => "Failed to read desk config " ++ file
  | .invalid file => "Invalid desk config " ++ file

namespace DeskConfig

def ofToml (text : String) : Except ConfigFault DeskConfig :=
  match (Toml.read text).map (DeskConfig.ofDocument .toml) with
  | some (.ok config) => .ok config
  | _ => .error .malformed

/-- There is no text for a period of sixty-four bits. -/
def toToml (c : DeskConfig) : Option String := Toml.print c.toDocument

/-- The configuration in a file, which may be missing. -/
def ofFile (file : String) (content : Option ByteArray) : Except ConfigFault DeskConfig :=
  match content.bind String.fromUTF8? with
  | none => .error (.unreadable file)
  | some text =>
    match ofToml text with
    | .ok config => .ok config
    | .error _ => .error (.invalid file)

end DeskConfig

end SignalDesk
