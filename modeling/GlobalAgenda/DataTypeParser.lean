import GlobalAgenda.Base.LittleEndian
import GlobalAgenda.Base.WhileLoop

namespace GlobalAgenda.DataTypeParser

open Base.LittleEndian Base.Triples Base.WhileLoop

/-- A binary `std::ifstream`: the bytes that have not been read, and the state bits. -/
structure IfStream where
  rest : List UInt8
  eof : Bool := false
  fail : Bool := false
  deriving DecidableEq, Repr

/-- What ends a run other than a return; `outOfRange` is undefined behaviour in the source. -/
inductive Fault
  | outOfRange (type : UInt32)
  | outOfFuel
  deriving DecidableEq, Repr

abbrev Reader := EStateM Fault IfStream

/-- `read` into a target: bytes that do not arrive leave the target as it was. -/
def IfStream.read (count : Nat) (target : List UInt8) : Reader (List UInt8) := fun s =>
  if s.eof || s.fail then .ok target { s with fail := true }
  else if count ≤ s.rest.length then .ok (s.rest.take count) { s with rest := s.rest.drop count }
  else .ok (s.rest ++ target.drop s.rest.length) ⟨[], true, true⟩

def readUint16 (target : UInt16) : Reader UInt16 := do
  let bs ← IfStream.read 2 (bytes 2 target.toNat)
  pure (UInt16.ofNat (value bs))

def readUint32 (target : UInt32) : Reader UInt32 := do
  let bs ← IfStream.read 4 (bytes 4 target.toNat)
  pure (UInt32.ofNat (value bs))

def readChar (target : UInt8) : Reader UInt8 := do
  let bs ← IfStream.read 1 [target]
  pure (bs.headD target)

def notEof (s : IfStream) : Bool := !s.eof

def lift {α : Type} : Except Fault α → Reader α
  | .ok a => pure a
  | .error f => throw f

def stringNameSize : Nat := 96

def gTcpTextTypes : List String := [
  "TYPE_TCP_WCHAR_STR",
  "TYPE_TCP_FLOAT",
  "TYPE_TCP_DOUBLE_OR_INT_SIGNED",
  "TYPE_TCP_UINT32",
  "TYPE_TCP_UINT16",
  "TYPE_TCP_UINT8",
  "TYPE_TCP_DATA_SET",
  "TYPE_TCP_DATETIME",
  "TYPE_TCP_UINT64",
  "TYPE_TCP_UUID_16_BYTES",
  "TYPE_TCP_DYNAMIC_UINT32_SIZE"
]

def typeText (type : UInt32) : Except Fault String :=
  match gTcpTextTypes[type.toNat]? with
  | some text => .ok text
  | none => .error (.outOfRange type)

def toHex (val width : Nat) : String :=
  "0x" ++ String.ofList (((Nat.toDigits 16 val).map Char.toUpper).leftpad width '0')

/-- `std::left << std::setw(width) << text`. -/
def setw (width : Nat) (text : String) : String := String.ofList (text.toList.rightpad width ' ')

def append (str : String) (temp : UInt8) : String := str.push (Char.ofNat temp.toNat)

/-- `getStr`, of either class, with so many rounds left. -/
def getStr : Nat → UInt8 → String → Reader String
  | 0, _, str => pure str
  | n + 1, temp, str => do
    let temp ← readChar temp
    getStr n temp (if temp ≠ 0x00 then append str temp else str)

structure TypeEntryTCP where
  index : UInt64 := 0
  flag1 : UInt16 := 0
  flag2 : UInt16 := 0
  type : UInt32 := 0
  name : String := ""
  deriving DecidableEq, Repr

namespace TypeEntryTCP

def ofFile (index : UInt64) : Reader TypeEntryTCP := do
  let flag1 ← readUint16 0
  let flag2 ← readUint16 0
  let type ← readUint32 0
  let name ← getStr stringNameSize 0 ""
  pure ⟨index, flag1, flag2, type, name⟩

def getCsvLine (e : TypeEntryTCP) : Except Fault String := do
  let text ← typeText e.type
  pure (toHex e.index.toNat 4 ++ "," ++ toHex e.flag1.toNat 4 ++ "," ++ toHex e.flag2.toNat 4 ++
    "," ++ toString e.type.toNat ++ "," ++ e.name ++ "," ++ text)

def getLineTxt (e : TypeEntryTCP) : Except Fault String := do
  let text ← typeText e.type
  pure (toHex e.index.toNat 4 ++ " Flag1: " ++ setw 4 (toString e.flag1.toNat) ++
    " Flag2: " ++ setw 4 (toString e.flag2.toNat) ++ " Type: " ++ setw 4 (toString e.type.toNat) ++
    " Name: " ++ setw 44 e.name ++ " " ++ text)

def getEnumTypeFlagLine (e : TypeEntryTCP) : String :=
  "\t\x7b" ++ toHex e.type.toNat 2 ++ ", " ++ toHex e.flag1.toNat 4 ++ "\x7d,"

def getEnumLine (e : TypeEntryTCP) : String :=
  "\t" ++ e.name ++ " = " ++ toHex e.index.toNat 4 ++ ","

def getEnumTextLine (e : TypeEntryTCP) : String := "\t\"" ++ e.name ++ "\","

end TypeEntryTCP

structure TypeEntryUDP where
  index : UInt64 := 0
  name : String := ""
  flags : UInt32 := 0
  deriving DecidableEq, Repr

namespace TypeEntryUDP

def ofFile (index : UInt64) : Reader TypeEntryUDP := do
  let name ← getStr stringNameSize 0 ""
  let flags ← readUint32 0
  pure ⟨index, name, flags⟩

def getLine (e : TypeEntryUDP) : String :=
  toHex e.index.toNat 4 ++ " Name: " ++ setw 44 e.name ++ " flags: " ++ toHex e.flags.toNat 4

end TypeEntryUDP

def generateEnum : String :=
  "enum ENUM_TYPE : uint32_t\n\x7b\n" ++
    String.join (gTcpTextTypes.mapIdx (fun i text => "\t" ++ text ++ " = " ++ toString i ++ ",\n")) ++
    "\x7d;\n\n"

/-- A round of the loop `while(!binFile.eof())`: an entry is read with the counter as its index, and
put into the output. -/
def loopBody {α β : Type} (ofFile : UInt64 → Reader α) (emit : β → α → Except Fault β)
    (x : UInt64 × β) : Reader (UInt64 × β) := do
  let entry ← ofFile x.1
  let out ← lift (emit x.2 entry)
  pure (x.1 + 1, out)

/-- The loop of every generator. -/
def forEachEntry {α β : Type} (ofFile : UInt64 → Reader α) (emit : β → α → Except Fault β)
    (rounds : Nat) (out : β) : Reader β := do
  let last ← whileLoop .outOfFuel notEof (loopBody ofFile emit) rounds (0, out)
  pure last.2

def enumValueBegin : String := "enum CMD_CODE : uint16_t \n\x7b\n"

def enumTypeFlagBegin : String :=
  "typedef struct enum_type_flags\n\x7b\n\tuint32_t type = 0;\n\tuint32_t flags = 0;\n" ++
    "\x7d enum_type_flags_t;\n\n" ++
    "const static enum_type_flags_t g_cmd_code_types_flags[] =\n\x7b\n"

def enumTextBegin : String := "const static std::vector<std::string> g_cmd_code_text \n\x7b\n"

def outFileBegin : String :=
  "#ifndef ENUM_DATA_TYPES_HPP\n#define ENUM_DATA_TYPES_HPP\n\n#include <cstdint>\n\n"

def outFile (enumValue enumTypeFlag enumText : String) : String :=
  outFileBegin ++ generateEnum ++ enumValue ++ "\x7d;" ++ "\n\n" ++ enumTypeFlag ++ "\x7d;" ++
    "\n\n" ++ enumText ++ "\x7d;" ++ "\n\n" ++ "#endif // ENUM_DATA_TYPES_HPP\n"

def emitRows (tables : String × String × String) (e : TypeEntryTCP) :
    Except Fault (String × String × String) :=
  .ok (tables.1 ++ (e.getEnumLine ++ "\n"), tables.2.1 ++ (e.getEnumTypeFlagLine ++ "\n"),
    tables.2.2 ++ (e.getEnumTextLine ++ "\n"))

/-- `generateTcpHeaderFile`; what it returns is the file it writes. -/
def generateTcpHeaderFile (rounds : Nat) : Reader String := do
  let tables ← forEachEntry TypeEntryTCP.ofFile emitRows rounds
    (enumValueBegin, enumTypeFlagBegin, enumTextBegin)
  pure (outFile tables.1 tables.2.1 tables.2.2)

def emitLine {α : Type} (line : α → Except Fault String) (out : String) (e : α) :
    Except Fault String := do
  let text ← line e
  pure (out ++ (text ++ "\n"))

/-- `generateTcpCsv`; what it returns is what it prints, as for the generators that follow. -/
def generateTcpCsv (rounds : Nat) : Reader String :=
  forEachEntry TypeEntryTCP.ofFile (emitLine TypeEntryTCP.getCsvLine) rounds ""

def generateTcpReadable (rounds : Nat) : Reader String :=
  forEachEntry TypeEntryTCP.ofFile (emitLine TypeEntryTCP.getLineTxt) rounds ""

def generateUdpReadable (rounds : Nat) : Reader String :=
  forEachEntry TypeEntryUDP.ofFile (emitLine (fun e => .ok e.getLine)) rounds ""

def gParserCommands : List String := [
  "generate-tcp-header",
  "generate-tcp-csv",
  "generate-tcp-readable",
  "generate-udp-readable"
]

/-- What a run prints, and the header file if it writes one. -/
structure Output where
  stdout : String := ""
  outFile : Option String := none
  deriving DecidableEq, Repr

def dispatch (userCmd : String) (binFile : IfStream) (rounds : Nat) : Except Fault Output :=
  if userCmd = gParserCommands.getD 0 "" then
    (outcome (generateTcpHeaderFile rounds) binFile).map (fun text => { outFile := some text })
  else if userCmd = gParserCommands.getD 1 "" then
    (outcome (generateTcpCsv rounds) binFile).map (fun text => { stdout := text })
  else if userCmd = gParserCommands.getD 2 "" then
    (outcome (generateTcpReadable rounds) binFile).map (fun text => { stdout := text })
  else if userCmd = gParserCommands.getD 3 "" then
    (outcome (generateUdpReadable rounds) binFile).map (fun text => { stdout := text })
  else
    .ok {}

/-- `main`, with the contents of the files that can be opened and a bound on the rounds of a loop. -/
def main (argv : List String) (file : String → Option (List UInt8)) (rounds : Nat) :
    Except Fault Output :=
  if argv.length ≠ 3 then
    .ok { stdout := "Please specify path to binary data types file\n" }
  else
    match file (argv.getD 2 "") with
    | none => .ok { stdout := "Error cannot open file\n" }
    | some bs => dispatch (argv.getD 1 "") { rest := bs } rounds

end GlobalAgenda.DataTypeParser
