/-
The generated module as text: a fixed preamble, the records as they stand in the plugin and the
forwarding functions, each block with one empty line behind it.
-/
import PluginTools.Stub.Generation
import PluginTools.Text.Blank

namespace PluginTools.Generated

def preamble : List String := [
  "# NOTE: This file has been automatically generated, do not modify!",
  "# Architecture based on https://github.com/mrexodia/ida-pro-mcp (MIT License)",
  "from typing import Annotated, Optional, TypedDict, Generic, TypeVar",
  "from pydantic import Field",
  "",
  "T = TypeVar(\"T\")",
  ""]

def preambleChars : List Char := preamble.flatMap fun line => line.toList ++ ['\n']

/-- A record's own source without the blanks at its end. -/
def recordChars (c : Class) : List Char := Blank.trimEnd c.source.toList ++ ['\n', '\n']

def functionChars (f : Function) : List Char := f.chars ++ ['\n']

def chars (g : Generated) : List Char :=
  preambleChars ++ g.records.values.flatMap recordChars ++ g.functions.values.flatMap functionChars

def write (g : Generated) : String := String.ofList g.chars

end PluginTools.Generated
