import Interlingua.Host.Reader
import Interlingua.Render.CSharp
import Interlingua.Render.PowerShell

namespace Interlingua

structure Reader where
  language : String
  extensions : List String
  read : String → Except ReadFailure Reading

structure Writer where
  language : String
  extension : String
  write : Node → String

namespace PowerShell

def reader : Reader := ⟨"powershell", ["ps1", "psm1"], Host.read {}⟩

def writer : Writer := ⟨"powershell", "ps1", render {}⟩

end PowerShell

namespace CSharp

def writer : Writer := ⟨"csharp", "cs", render {}⟩

end CSharp

/-- A text in the target language, and what was approximated on the way to it. -/
structure Transcript where
  text : String
  diagnostics : List Diagnostic

structure Route where
  reader : Reader
  writer : Writer

def Route.run (route : Route) (tree : String) : Except ReadFailure Transcript :=
  match route.reader.read tree with
  | .error e => .error e
  | .ok r => .ok ⟨route.writer.write r.node, r.diagnostics⟩

/-- The built-in languages stand in front of those that are added; of all that match, the first is
taken. -/
structure Catalog where
  readers : List Reader
  writers : List Writer

namespace Catalog

/-- The catalog that holds the built-in languages alone. -/
def builtin : Catalog := ⟨[PowerShell.reader], [CSharp.writer, PowerShell.writer]⟩

def addReader (c : Catalog) (reader : Reader) : Catalog :=
  { c with readers := c.readers ++ [reader] }

def addWriter (c : Catalog) (writer : Writer) : Catalog :=
  { c with writers := c.writers ++ [writer] }

def readerOf (c : Catalog) (language : String) : Option Reader :=
  c.readers.find? (·.language == language)

def readerOfFile (c : Catalog) (extension : String) : Option Reader :=
  c.readers.find? (·.extensions.contains extension)

def writerOf (c : Catalog) (language : String) : Option Writer :=
  c.writers.find? (·.language == language)

def writerOfFile (c : Catalog) (extension : String) : Option Writer :=
  c.writers.find? (·.extension == extension)

def route (c : Catalog) (source target : String) : Option Route := do
  return ⟨← c.readerOf source, ← c.writerOf target⟩

def routeOfFiles (c : Catalog) (source target : String) : Option Route := do
  return ⟨← c.readerOfFile source, ← c.writerOfFile target⟩

/-- Every pair of a reader and a writer of different languages. -/
def routes (c : Catalog) : List Route :=
  c.readers.flatMap fun reader =>
    (c.writers.filter (·.language != reader.language)).map fun writer => ⟨reader, writer⟩

end Catalog

end Interlingua
