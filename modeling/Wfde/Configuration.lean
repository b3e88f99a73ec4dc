import Wfde.Bytes
import Wfde.Lib.KeyTree

/-!
# Configuration

`WfdeConfigurationPropertyTree` and its `SubConfig`. A `boost::property_tree::ptree` is a tree of named
nodes with a text each; `get`, `get_child` and `get_child_optional` look a key path up in it, and `put`
makes the nodes that are not there.
-/

namespace Wfde

abbrev Ptree := KeyTree Bytes Bytes

/-- The keys of a `boost::property_tree::path`. `reduce` skips the separator behind a key, so that one
at the end is not followed by another key. -/
def pathKeys (text : Bytes) : List Bytes :=
  let parts := text.splitOn slash
  if parts.getLast? = some [] then parts.dropLast else parts

structure WfdeConfigurationPropertyTree where
  data : Ptree

namespace WfdeConfigurationPropertyTree

/-- One leading slash is stripped off. -/
def toPath (path : Bytes) : List Bytes :=
  pathKeys (if path.head? = some slash then path.tail else path)

section Calls

variable (self : WfdeConfigurationPropertyTree) (path : Bytes)

def getValue (defaultVal : Option Bytes) : Bytes :=
  match self.data.get? (toPath path) with
  | some node => node.value
  | none => defaultVal.getD []

def haveValue : Bool := (self.data.get? (toPath path)).isSome

def setValue (value : Bytes) : WfdeConfigurationPropertyTree :=
  { self with data := self.data.put [] (toPath path) value }

/-- A bad path has no nodes. -/
def enumNodes : List Bytes :=
  match self.data.get? (toPath path) with
  | some sub => sub.children.map Prod.fst
  | none => []

end Calls

/-- The object also holds `conf_`, the configuration at the top, which it shares with all the others:
the functions take its state. -/
structure SubConfig where
  rootPath : Bytes

/-- `GetConfigForPath` at the top. -/
def getConfigForPath (path : Bytes) : SubConfig := { rootPath := path }

namespace SubConfig

def sep (path : Bytes) : Bytes := if path.head? = some slash then [] else [slash]

variable (self : SubConfig) (conf : WfdeConfigurationPropertyTree)

def getConfigForPath (path : Bytes) : SubConfig :=
  { rootPath := self.rootPath ++ sep path ++ path }

def getValue (path : Bytes) (defaultVal : Option Bytes) : Bytes :=
  conf.getValue (self.rootPath ++ sep path ++ path) defaultVal

/-- The path is forwarded as it is. -/
def haveValue (_self : SubConfig) (conf : WfdeConfigurationPropertyTree) (path : Bytes) : Bool :=
  conf.haveValue path

def setValue (path value : Bytes) : WfdeConfigurationPropertyTree :=
  conf.setValue (self.rootPath ++ sep path ++ path) value

def enumNodes (path : Bytes) : List Bytes := conf.enumNodes (self.rootPath ++ sep path ++ path)

end SubConfig

end WfdeConfigurationPropertyTree

end Wfde
