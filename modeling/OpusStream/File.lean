import OpusStream.Headers

/-!
# Files

The outer layer for files: the whole file is read, the headers are taken from its octets, and the
lines are printed.
-/

namespace OpusStream

def Line.print (line : Line) : IO Unit :=
  match line.channel with
  | .log | .info => IO.println line.text
  | .warn | .error => IO.eprintln line.text

def readHeadersFromFile [LineLogger] (options : Options) (path : String) :
    IO (Except Fault Headers) := do
  let content ← IO.FS.readBinFile path
  let printed := readHeaders options content.toList
  for line in printed.lines do
    line.print
  return printed.result

end OpusStream
