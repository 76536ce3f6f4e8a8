/-! What a text is read under: the options of one reading, and the context a surrounding grammar sets. -/

namespace ArithLang

inductive Plugin
  /-- The token `::`. -/
  | functionBind
  deriving DecidableEq, Repr

structure Options where
  /-- Module code has no `<!--` comments and is always strict. -/
  moduleCode : Bool := false
  strict : Bool := false
  plugins : List Plugin := []
  deriving DecidableEq, Repr, Inhabited

namespace Options

def hasPlugin (options : Options) (plugin : Plugin) : Bool :=
  options.plugins.contains plugin

def withModuleCode (options : Options) (moduleCode : Bool) : Options :=
  { options with moduleCode }

def withStrict (options : Options) (strict : Bool) : Options :=
  { options with strict }

/-- Adds a plugin after those already there; a second time changes nothing. -/
def withPlugin (options : Options) (plugin : Plugin) : Options :=
  if options.hasPlugin plugin then options
  else { options with plugins := options.plugins ++ [plugin] }

end Options

structure Context where
  strict : Bool := false
  inGenerator : Bool := false
  /-- The surrounding grammar ends statements, so a line break before `++` or `--` ends the expression. -/
  statementTerminators : Bool := false
  deriving DecidableEq, Repr, Inhabited

def Options.context (options : Options) : Context :=
  { strict := options.strict || options.moduleCode }

end ArithLang
