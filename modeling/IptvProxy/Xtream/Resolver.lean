import IptvProxy.Xtream.Translate

/-!
# Which provider a request is for

`internal/routing/resolver.go`: the first segment of the path may name a provider's route, which is
then cut off; any other path belongs to the default provider as it is.
-/

namespace IptvProxy.Xtream

/-- `MatchType` -/
inductive MatchType where
  | route
  | default
  deriving DecidableEq, Repr

/-- `Resolved` -/
structure Resolved where
  /-- `Provider` -/
  provider : Provider
  /-- `MatchedBy` -/
  matchedBy : MatchType
  /-- `RemainingPath` -/
  remainingPath : Bytes
  deriving DecidableEq

/-- The errors of the resolver. -/
inductive ResolveError where
  | noProviders
  | noDefault
  /-- of `ProviderByID` -/
  | unavailable
  deriving DecidableEq, Repr

/-- Their texts. -/
def ResolveError.text : ResolveError → String
  | noProviders => "no enabled IPTV providers are configured"
  | noDefault => "no default provider is configured and no provider route matched"
  | unavailable => "IPTV provider for cached entry is unavailable"

/-- `ProviderByID` -/
def Resolver.providerByID (providers : List Provider) (id : Bytes) : Except ResolveError Provider :=
  match providers.find? fun p => p.id = id with
  | some p => .ok p
  | none => .error .unavailable

variable (L : Library)

/-- The first segment as it is compared with the routes. -/
def routeWord (requestPath : Bytes) : Bytes :=
  L.toLower (L.trimSpace ((splitSlash (trimPrefixSlash requestPath)).headD []))

/-- `Resolve` -/
def Resolver.resolve (providers : List Provider) (requestPath : Bytes) : Except ResolveError Resolved :=
  if providers = [] then .error .noProviders
  else match providers.find? fun p => L.equalFold p.route (routeWord L requestPath) with
    | some p =>
      .ok ⟨p, .route, slash :: joinSlash (splitSlash (trimPrefixSlash requestPath)).tail⟩
    | none =>
      match providers.find? fun p => p.isDefault = 1 with
      | some p => .ok ⟨p, .default, if requestPath = [] then [slash] else requestPath⟩
      | none => .error .noDefault

end IptvProxy.Xtream
