import Conductor.Lib.Keyed
import Conductor.Discovery.Providers

/-! # Registered providers

The registry is filled at startup and may be added to at any time; the servers and
the commands look providers up when they need them. Unlike the built-in ones, a
registered provider may fail to discover. -/
namespace Conductor.Providers.Registrations
open Conductor.Lib.Keyed Conductor.Js.Text Conductor.Js.Values Conductor.Sessions.Types
open Conductor.Discovery.Providers

structure Provider where
  name : JsString
  discover : Host → Except JsError (List LocalSession)

def builtIn (p : AgentProvider) : Provider := ⟨p.name, fun h => .ok (p.discover h)⟩

abbrev Registry := Table Provider.name

def Registry.registerProvider (registry : Registry) (provider : Provider) : Registry := registry.put provider

def Registry.getProvider (registry : Registry) (name : JsString) : Option Provider := registry.find? name

def Registry.allProviders (registry : Registry) : List Provider := registry.values

/-- A provider that rejects counts as one that finds nothing, when all are asked. -/
def Registry.discoverSessions (registry : Registry) (h : Host) (providerName : JsString) :
    Except JsError (List LocalSession) :=
  if providerName = js "all" then .ok (registry.allProviders.flatMap fun p => (p.discover h).toOption.getD [])
  else match registry.getProvider providerName with
    | some p => p.discover h
    | none => .error (.error (js "unknown provider '" ++ providerName ++ js "'. Available: " ++
        (js ", ").intercalate (registry.allProviders.map (·.name))))

/-- The registrations that the module makes itself. -/
def startup : List Provider := allProviders.map builtIn

/-- The registry after these registrations. -/
def registered (later : List Provider) : Registry :=
  (startup ++ later).foldl Registry.registerProvider Table.empty

/-! ## After any registrations -/

/-- The names of the providers, in the order in which they were first registered. -/
def namesOf (registrations : List Provider) : List JsString := firsts Provider.name registrations

/-- What the provider finds that was registered with the name last; nothing when it fails. -/
def foundBy (registrations : List Provider) (h : Host) (name : JsString) : List LocalSession :=
  (lastOf Provider.name registrations name).elim [] fun p => (p.discover h).toOption.getD []

/-- Whatever was registered, a name stands for the provider that was registered with it
last, and `all` for those of all names in the order of the first registrations; only
a provider asked for by name can fail. -/
theorem discover_registered (later : List Provider) (h : Host) (name : JsString) :
    (registered later).discoverSessions h name =
      if name = js "all" then .ok ((namesOf (startup ++ later)).flatMap (foundBy (startup ++ later) h))
      else match lastOf Provider.name (startup ++ later) name with
        | some p => p.discover h
        | none => .error (.error (js "unknown provider '" ++ name ++ js "'. Available: " ++
            (js ", ").intercalate (namesOf (startup ++ later)))) := by
  have hget : ∀ name, (registered later).find? name = lastOf Provider.name (startup ++ later) name :=
    Table.find?_putAll (startup ++ later)
  have hnames : (registered later).keys = namesOf (startup ++ later) :=
    Table.keys_putAll (startup ++ later)
  have hall : ((registered later).allProviders.flatMap fun p => (p.discover h).toOption.getD []) =
      (namesOf (startup ++ later)).flatMap (foundBy (startup ++ later) h) := by
    refine (Table.flatMap_values _ _).trans ?_
    rw [hnames]
    exact List.flatMap_congr fun name _ => by rw [hget name]; rfl
  unfold Registry.discoverSessions Registry.getProvider
  rw [hall, hget, show (registered later).allProviders.map (·.name) = namesOf (startup ++ later) from hnames]

end Conductor.Providers.Registrations
