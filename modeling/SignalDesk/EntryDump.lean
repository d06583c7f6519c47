import SignalDesk.Decimal.NumberStyle
import SignalDesk.Hidden
import SignalDesk.Registry

namespace SignalDesk

/-- A character in a dump: by a letter, by its number where it would be hidden, or as it is. -/
def dumpChar (c : Char) : String :=
  if c = '\x00' then "\\0"
  else if c = '\t' then "\\t"
  else if c = '\n' then "\\n"
  else if c = '\r' then "\\r"
  else if c = '"' then "\\\""
  else if c = '\\' then "\\\\"
  else if isHidden c then "\\u\x7b" ++ String.ofList (Nat.toDigits 16 c.toNat) ++ "\x7d"
  else c.toString

def dumpText (s : String) : String := "\"" ++ String.join (s.toList.map dumpChar) ++ "\""

def Setting.dump : Setting → String
  | .number value => "Number(" ++ NumberStyle.dump.render value ++ ")"
  | .text value => "Text(" ++ dumpText value ++ ")"

def Parameters.dump (p : Parameters) : String :=
  let values := p.values.entries.map fun (name, value) => dumpText name ++ ": " ++ value.dump
  "StrategyParameters \x7b strategy_id: " ++ dumpText p.strategyId ++ ", values: \x7b" ++
    ", ".intercalate values ++ "\x7d, enabled: " ++ toString p.enabled ++ " \x7d"

/-- Everything about an entry on one line. -/
def Entry.dump (e : Entry) : String :=
  "RegisteredStrategy \x7b name: " ++ dumpText e.name ++ ", params: " ++ e.parameters.dump ++
    ", rank: " ++ toString e.rank ++ " \x7d"

end SignalDesk
