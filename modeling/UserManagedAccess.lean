import UserManagedAccess.Claim
import UserManagedAccess.Credential
import UserManagedAccess.Crypto.Der
import UserManagedAccess.Crypto.Pem
import UserManagedAccess.Crypto.Rsa
import UserManagedAccess.Crypto.Sha2
import UserManagedAccess.Dialog
import UserManagedAccess.Discovery
import UserManagedAccess.Error
import UserManagedAccess.Fetching
import UserManagedAccess.Http.Endpoint
import UserManagedAccess.Http.Form
import UserManagedAccess.Http.MediaType
import UserManagedAccess.Http.Message
import UserManagedAccess.Jose.Algorithm
import UserManagedAccess.Jose.Compact
import UserManagedAccess.Jose.Header
import UserManagedAccess.Jose.Key
import UserManagedAccess.Jose.RegisteredClaims
import UserManagedAccess.Jose.Verification
import UserManagedAccess.Json.Basic
import UserManagedAccess.Json.Decoder
import UserManagedAccess.Json.Document
import UserManagedAccess.Json.Numeral
import UserManagedAccess.Json.Writer
import UserManagedAccess.KeyMap
import UserManagedAccess.Main
import UserManagedAccess.Number.Binary64
import UserManagedAccess.Number.Plain
import UserManagedAccess.Number.Shortest
import UserManagedAccess.Number.Word
import UserManagedAccess.Permission
import UserManagedAccess.Policy.Basic
import UserManagedAccess.Policy.Rules
import UserManagedAccess.Policy.RulesFile
import UserManagedAccess.Proofs.AccessRights
import UserManagedAccess.Proofs.Action
import UserManagedAccess.Proofs.Assertions
import UserManagedAccess.Proofs.Audience
import UserManagedAccess.Proofs.Chain
import UserManagedAccess.Proofs.Consultation
import UserManagedAccess.Proofs.Demands
import UserManagedAccess.Proofs.DerivationHandles
import UserManagedAccess.Proofs.DerivationRelations
import UserManagedAccess.Proofs.DerivedResources
import UserManagedAccess.Proofs.Digits
import UserManagedAccess.Proofs.Disclosure
import UserManagedAccess.Proofs.Discretion
import UserManagedAccess.Proofs.Effects
import UserManagedAccess.Proofs.Elimination
import UserManagedAccess.Proofs.Encodings
import UserManagedAccess.Proofs.Ending
import UserManagedAccess.Proofs.Entitlements
import UserManagedAccess.Proofs.Faults
import UserManagedAccess.Proofs.Fetching
import UserManagedAccess.Proofs.FreshIds
import UserManagedAccess.Proofs.Grants
import UserManagedAccess.Proofs.GuessedValues
import UserManagedAccess.Proofs.History
import UserManagedAccess.Proofs.HostBlanks
import UserManagedAccess.Proofs.Identities
import UserManagedAccess.Proofs.Interleaving
import UserManagedAccess.Proofs.IssuerAddress
import UserManagedAccess.Proofs.JsonNumerals
import UserManagedAccess.Proofs.JsonReading
import UserManagedAccess.Proofs.JsonScalars
import UserManagedAccess.Proofs.JsonText
import UserManagedAccess.Proofs.KeyAddress
import UserManagedAccess.Proofs.KeyChoice
import UserManagedAccess.Proofs.KeyMap
import UserManagedAccess.Proofs.Messages
import UserManagedAccess.Proofs.MintedTokens
import UserManagedAccess.Proofs.MoreClaims
import UserManagedAccess.Proofs.PathIndependence
import UserManagedAccess.Proofs.PlainData
import UserManagedAccess.Proofs.Plans
import UserManagedAccess.Proofs.RecordReading
import UserManagedAccess.Proofs.Records
import UserManagedAccess.Proofs.RegisteredClaims
import UserManagedAccess.Proofs.Registry
import UserManagedAccess.Proofs.RequestFlaws
import UserManagedAccess.Proofs.Rereading
import UserManagedAccess.Proofs.Resemblance
import UserManagedAccess.Proofs.Round
import UserManagedAccess.Proofs.RoundTrips
import UserManagedAccess.Proofs.RsaSignatures
import UserManagedAccess.Proofs.RuleDecisions
import UserManagedAccess.Proofs.RuleGrants
import UserManagedAccess.Proofs.RuleReloading
import UserManagedAccess.Proofs.ScopeExpansion
import UserManagedAccess.Proofs.SelfAssertedTokens
import UserManagedAccess.Proofs.SerialOrders
import UserManagedAccess.Proofs.Serializability
import UserManagedAccess.Proofs.SettingTrees
import UserManagedAccess.Proofs.SettingValues
import UserManagedAccess.Proofs.SignedClaims
import UserManagedAccess.Proofs.SignedTokens
import UserManagedAccess.Proofs.SourceDemands
import UserManagedAccess.Proofs.SourceProvenance
import UserManagedAccess.Proofs.StoredTickets
import UserManagedAccess.Proofs.Stores
import UserManagedAccess.Proofs.Tasks
import UserManagedAccess.Proofs.TextParts
import UserManagedAccess.Proofs.TicketRoute
import UserManagedAccess.Proofs.TokenExchange
import UserManagedAccess.Proofs.TokenForms
import UserManagedAccess.Proofs.TokenLifetimes
import UserManagedAccess.Proofs.TokenText
import UserManagedAccess.Proofs.Variables
import UserManagedAccess.Proofs.VerifierContract
import UserManagedAccess.Proofs.WebIdProfiles
import UserManagedAccess.Requirement
import UserManagedAccess.Resource
import UserManagedAccess.Server.Api
import UserManagedAccess.Server.Basic
import UserManagedAccess.Server.Negotiation
import UserManagedAccess.Server.Program
import UserManagedAccess.Server.Registration
import UserManagedAccess.Server.Startup
import UserManagedAccess.Server.State
import UserManagedAccess.ServerMetadata
import UserManagedAccess.Settings.Basic
import UserManagedAccess.Settings.Conversion
import UserManagedAccess.Settings.Loading
import UserManagedAccess.Settings.Source
import UserManagedAccess.Settings.Tree
import UserManagedAccess.Strategy
import UserManagedAccess.Text.Base64Url
import UserManagedAccess.Text.Blank
import UserManagedAccess.Text.Percent
import UserManagedAccess.Text.Utf8
import UserManagedAccess.Ticket
import UserManagedAccess.Token.Basic
import UserManagedAccess.Token.KeyPair
import UserManagedAccess.Token.Signed
import UserManagedAccess.Toml.Document
import UserManagedAccess.Toml.Moment
import UserManagedAccess.Toml.Number
import UserManagedAccess.Toml.Text
import UserManagedAccess.Url.Basic
import UserManagedAccess.Url.Domain
import UserManagedAccess.Url.Host
import UserManagedAccess.Url.Parser
import UserManagedAccess.Verifier.Basic
import UserManagedAccess.Verifier.SelfAsserted
import UserManagedAccess.Verifier.Signed
