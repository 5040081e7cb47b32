import PromptTemplate.Registry.Builtin
import PromptTemplate.Template.Assembly
import PromptTemplate.Template.Rendering

/-!
# Engines

An engine is a registry with options. Rendering never changes the context that
is passed in: sentinels and assignments go into a copy.
-/

namespace PromptTemplate

/-- A registry and render options. -/
structure Engine where
  registry : Registry
  options : Options

namespace Engine

/-- The engine of the built-in names and the standard options. -/
def standard (now : Instant) : Engine := ⟨Registry.builtin now, Options.standard⟩

/-- The context in which a template is rendered: with sentinels if the options say so. -/
def prepare (e : Engine) (c : Context) : Context :=
  if e.options.injectBuiltins then e.registry.injectSentinels c else c

/-- Renders a template. -/
def renderTemplate (e : Engine) (template : Template) (c : Context) : Except Raised Text :=
  (renderAll e.registry e.options template (e.prepare c)).result

/-- Renders a template source. -/
def render (e : Engine) (source : Text) (c : Context) : Except TemplateError Text := do
  let template ← (Template.ofSource source).mapError .refused
  (e.renderTemplate template c).mapError .raised

/-- Renders a conversation, bound as `messages` whatever the context binds there. -/
def renderChat (e : Engine) (source : Text) (messages : List Message) (c : Context) :
    Except TemplateError Text := e.render source (c.setMessages messages)

end Engine

end PromptTemplate
