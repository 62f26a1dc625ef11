import RingWallet.CommandLine
import RingWallet.Ed25519
import Std.Time.DateTime.Timestamp

/-!
# The command line program

Serves the requests that come over standard input, one a line, and writes the answers to standard
output. The environment variable `WALLET_CONFIG` names the file of the configuration, and
`WALLET_DAEMON_ADDRESS` another daemon than the configured one.
-/

set_option autoImplicit false

namespace RingWallet.CommandLine

/-- The next line with its end; it is empty once the input has ended. -/
partial def readLine (input : IO.FS.Stream) (start : ByteArray) : IO ByteArray := do
  let byte ← input.read 1
  let line := start ++ byte
  if byte.isEmpty || byte.data[0]? = some 10 then return line else readLine input line

/-- The text of the named file, and nothing if it cannot be read. -/
def readConfig (path : String) : IO (Option String) :=
  try some <$> IO.FS.readFile path catch _ => pure none

/-- The Unix time. -/
def clock : IO UInt64 :=
  return UInt64.ofNat (← Std.Time.Timestamp.now).toSecondsSinceUnixEpoch.toInt.toNat

/-- Answers the lines of the input, up to its end or to a line that is no text. -/
partial def answerLines (config : Config) (input output : IO.FS.Stream) : IO Unit := do
  let line ← readLine input .empty
  if line.isEmpty then
    return
  if Line.ofBytes line.toList = .undecodable then
    IO.eprintln "The input is no text"
    return
  let world : Sandbox := { now := ← clock }
  for answer in ((serve Suite.standard offline config [line.toList]).run world).1 do
    output.putStrLn answer.compact
    output.flush
  answerLines config input output

end RingWallet.CommandLine

open RingWallet CommandLine in
def main : IO Unit := do
  let file ← (← IO.getEnv "WALLET_CONFIG").mapM readConfig
  match Config.load file (← IO.getEnv "WALLET_DAEMON_ADDRESS") with
  | .ok config => answerLines config (← IO.getStdin) (← IO.getStdout)
  | .error e => IO.eprintln e.message
