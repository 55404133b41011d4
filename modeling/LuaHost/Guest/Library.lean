import LuaHost.Guest.Library.Coroutines
import LuaHost.Guest.Library.Debug
import LuaHost.Guest.Library.Math
import LuaHost.Guest.Library.Package
import LuaHost.Guest.Library.Tables
import LuaHost.Guest.Library.Utf8
/-!
The functions of the standard libraries, by name.
-/

namespace LuaHost.Guest.Library

/-- What a library function does with its arguments. -/
def act (f : Builtin) (args : Arguments) : Act (List Value) :=
  match f with
  | .assert => assert args
  | .collectgarbage => collectgarbage args
  | .dofile => dofile args
  | .error => error args
  | .getmetatable => getmetatable args
  | .ipairs => ipairs args
  | .ipairsStep => ipairsStep args
  | .load => load args
  | .loadfile => loadfile args
  | .next => next args
  | .pairs => pairs args
  | .pcall => pcall args
  | .print => print args
  | .rawequal => rawequal args
  | .rawget => rawget args
  | .rawlen => rawlen args
  | .rawset => rawset args
  | .select => select args
  | .setmetatable => setmetatable args
  | .tonumber => tonumber args
  | .tostring => tostring args
  | .type => type args
  | .xpcall => xpcall args
  | .coCreate => coCreate args
  | .coIsYieldable => coIsYieldable
  | .coResume => coResume args
  | .coRunning => coRunning
  | .coStatus => coStatus args
  | .coWrap => coWrap args
  | .coYield => coYield args
  | .tableConcat => tableConcat args
  | .tableInsert => tableInsert args
  | .tableMove => tableMove args
  | .tablePack => tablePack args
  | .tableRemove => tableRemove args
  | .tableSort => tableSort args
  | .tableUnpack => tableUnpack args
  | .strByte => strByte args
  | .strChar => strChar args
  | .strFind => strFind args
  | .strFormat => strFormat args
  | .strGmatch => strGmatch args
  | .strGsub => strGsub args
  | .strLen => strLen args
  | .strLower => strLower args
  | .strMatch => strMatch args
  | .strRep => strRep args
  | .strReverse => strReverse args
  | .strSub => strSub args
  | .strUpper => strUpper args
  | .utf8Char => utf8Char args
  | .utf8Codepoint => utf8Codepoint args
  | .utf8Codes => utf8Codes args
  | .utf8CodesStep => utf8CodesStep args
  | .utf8Len => utf8Len args
  | .utf8Offset => utf8Offset args
  | .mathAbs => mathAbs args
  | .mathAcos => floatResult args Float.acos
  | .mathAsin => floatResult args Float.asin
  | .mathAtan => mathAtan args
  | .mathCeil => mathCeil args
  | .mathCos => floatResult args Float.cos
  | .mathDeg => mathDeg args
  | .mathExp => floatResult args Float.exp
  | .mathFloor => mathFloor args
  | .mathFmod => mathFmod args
  | .mathLog => mathLog args
  | .mathMax => mathMax args
  | .mathMin => mathMin args
  | .mathModf => mathModf args
  | .mathRad => mathRad args
  | .mathSin => floatResult args Float.sin
  | .mathSqrt => floatResult args Float.sqrt
  | .mathTan => floatResult args Float.tan
  | .mathTointeger => mathTointeger args
  | .mathType => mathType args
  | .mathUlt => mathUlt args
  | .debugGetinfo => debugGetinfo args
  | .debugGetmetatable => debugGetmetatable args
  | .debugSetmetatable => debugSetmetatable args
  | .debugTraceback => debugTraceback args
  | .packageSearchpath => packageSearchpath args
  | .packageSearchPreload => packageSearchPreload args
  | .packageSearchSource => packageSearchSource args
  | .packageSearchNative => packageSearchNative args
  | .require => require args
  | .hostErrorToString => hostErrorToString args
  | .unavailable name => Act.fail ("'" ++ name ++ "' is not available")

def run (f : Builtin) (values : List Value) : Program := (act f values.toArray).toProgram

end LuaHost.Guest.Library
