import PennDaq.JsonStrings

/-! JSON text read: `json_decode` and what it calls, on the memory behind a pointer. -/
namespace PennDaq.JsonParse
open Lib.Cursor Lib.Bracketed PennDaq.Utf8 PennDaq.JsonNumbers PennDaq.JsonText PennDaq.JsonStrings

theorem commaNotBracket : ','.toUInt8 ≠ ']'.toUInt8 := by decide

theorem commaNotBrace : ','.toUInt8 ≠ '}'.toUInt8 := by decide

theorem commaNotSpace : isSpace ','.toUInt8 = false := by decide

theorem bracketNotSpace : isSpace ']'.toUInt8 = false := by decide

theorem braceNotSpace : isSpace '}'.toUInt8 = false := by decide

def arrayMarks : Marks UInt8 where
  blank := isSpace
  opening := '['.toUInt8
  separator := ','.toUInt8
  closing := ']'.toUInt8
  apart := commaNotBracket
  separatorNotBlank := commaNotSpace
  closingNotBlank := bracketNotSpace

def objectMarks : Marks UInt8 where
  blank := isSpace
  opening := '{'.toUInt8
  separator := ','.toUInt8
  closing := '}'.toUInt8
  apart := commaNotBrace
  separatorNotBlank := commaNotSpace
  closingNotBlank := braceNotSpace

def skipSpace : Reader UInt8 Unit := skipWhile isSpace

section Values
variable {ν : Type}

def parseArray (value : Reader UInt8 (JsonNode ν)) : Reader UInt8 (List (JsonNode ν)) :=
  arrayMarks.sequence value

def parseMember (value : Reader UInt8 (JsonNode ν)) : Reader UInt8 (CText × JsonNode ν) := do
  let key ← parseString
  skipSpace
  expect ':'.toUInt8
  skipSpace
  let value ← value
  return (key,value)

def parseObject (value : Reader UInt8 (JsonNode ν)) : Reader UInt8 (List (CText × JsonNode ν)) :=
  objectMarks.sequence (parseMember value)

variable (doubles : Doubles ν)

def parseValue : Nat → Reader UInt8 (JsonNode ν)
  | 0 => starve
  | depth+1 => do
    let c ← peek
    if c = 'n'.toUInt8 then
      literal null
      return .null
    else if c = 'f'.toUInt8 then
      literal false'
      return .bool false
    else if c = 't'.toUInt8 then
      literal true'
      return .bool true
    else if c = '"'.toUInt8 then
      let str ← parseString
      return .string str
    else if c = '['.toUInt8 then
      let elements ← parseArray (parseValue depth)
      return .array elements
    else if c = '{'.toUInt8 then
      let members ← parseObject (parseValue depth)
      return .object members
    else
      let num ← parseNumber doubles.strtod
      return .number num

def jsonDecode (json : Text) : Outcome UInt8 (JsonNode ν) :=
  (do
    skipSpace
    let ret ← parseValue doubles json.length
    skipSpace
    let c ← peek
    if c = 0 then return ret else fail : Reader UInt8 (JsonNode ν)) json

end Values

end PennDaq.JsonParse
