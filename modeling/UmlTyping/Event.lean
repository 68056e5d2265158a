import UmlTyping.Definition.Kind
import UmlTyping.Text.Quoted

/-!
# Events

What may be reported while a model is loaded and its definitions are generated. An event is a fact;
its level, the part of the program that it comes from, and its wording are functions of it.
-/

namespace UmlTyping

/-- How much attention an event asks for. -/
inductive Level where
  | error
  | warn
  | info
  | debug
  | trace
deriving DecidableEq, Repr

namespace Level

/-- The place of a level, starting from the most urgent. -/
def rank : Level → Nat
  | error => 0
  | warn => 1
  | info => 2
  | debug => 3
  | trace => 4

/-- Whether whoever listens at level `l` hears events of level `m`. -/
def admits (l m : Level) : Bool := m.rank ≤ l.rank

/-- The name of a level. -/
def name : Level → String
  | error => "ERROR"
  | warn => "WARN"
  | info => "INFO"
  | debug => "DEBUG"
  | trace => "TRACE"

end Level

/-- A fact worth reporting. -/
inductive Event where
  /-- A document was read that has a model with so many elements at its top. -/
  | loadingModel (name : Option String) (elements : Nat)
  /-- An element at the top is no package. -/
  | skippingTopLevel (id : Option String)
  /-- An element of a package has neither identifier nor tag. -/
  | skippingAnonymous (package : String)
  /-- An entry is about to be filed. -/
  | indexing (id tag : String)
  /-- A package is complete. -/
  | indexedPackage (name : String) (entries : Nat)
  /-- A model is complete. -/
  | loadedModel (packages entries : Nat)
  /-- An entry is about to be compiled. -/
  | compiling (kind : Kind) (id : String)
  /-- A record has an attribute of its own type. -/
  | selfReference (id field : String)
  /-- A root is about to be resolved. -/
  | resolvingRoot (id : String)
  /-- An entry is needed that is emitted already. -/
  | alreadyEmitted (id : String)
  /-- All dependencies of an entry are emitted, and it follows. -/
  | emitting (id : String)
  /-- All roots are resolved. -/
  | resolved (entries : Nat)
  /-- A module is about to be written out. -/
  | composing (package : String) (definitions : Nat) (imports : List String)
  /-- A model is about to be read from a file. -/
  | loadingFile (path : String)
  /-- A module is on disk. -/
  | generatedModule (path : String)
  /-- All modules are on disk. -/
  | generatedModules (count : Nat) (directory : String)
deriving DecidableEq, Repr

namespace Event

/-- The level of an event. -/
def level : Event → Level
  | loadingFile _ | generatedModule _ | generatedModules .. => .info
  | loadingModel .. | indexedPackage .. | loadedModel .. | selfReference .. | resolvingRoot _
  | resolved _ | composing .. => .debug
  | skippingTopLevel _ | skippingAnonymous _ | indexing .. | compiling .. | alreadyEmitted _
  | emitting _ => .trace

/-- The part of the program that reports an event. -/
def target : Event → String
  | loadingModel .. | skippingTopLevel _ | skippingAnonymous _ | indexing .. | indexedPackage ..
  | loadedModel .. => "xmi::model"
  | compiling .. | selfReference .. => "b2b_codegen::compiler"
  | resolvingRoot _ | alreadyEmitted _ | emitting _ | resolved _ => "b2b_codegen::resolver"
  | composing .. | generatedModule _ => "b2b_codegen::emitter"
  | loadingFile _ | generatedModules .. => "b2b_codegen::config"

/-- The wording of an event. -/
def text : Event → String
  | loadingModel name n =>
    "loading model " ++ Quoted.quote (name.getD "") ++ s!" ({n} top-level element(s))"
  | skippingTopLevel id => "skipping top-level element " ++ Quoted.quote? id
  | skippingAnonymous package => s!"skipping anonymous element in package {package}"
  | indexing id tag => s!"indexing {id} ({tag})"
  | indexedPackage name n => s!"package {name}: {n} entries"
  | loadedModel packages entries => s!"loaded {packages} package(s) with {entries} entries"
  | compiling kind id => "compiling " ++ kind.name ++ " " ++ id
  | selfReference id field => s!"{id} references itself in {field}"
  | resolvingRoot id => s!"resolving root {id}"
  | alreadyEmitted id => s!"{id} already emitted"
  | emitting id => s!"emitting {id}"
  | resolved n => s!"resolved {n} entries"
  | composing package n imports =>
    s!"module {package}: {n} definition(s), imports " ++ Quoted.quoteSet imports
  | loadingFile path => s!"loading model {path}"
  | generatedModule path => s!"generated module {path}"
  | generatedModules n directory => s!"generated {n} module(s) in {directory}"

end Event

end UmlTyping
