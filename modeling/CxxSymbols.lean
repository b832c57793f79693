import CxxSymbols.Host.Memory
import CxxSymbols.Main
import CxxSymbols.Proofs.Build.Account
import CxxSymbols.Proofs.Build.Backing
import CxxSymbols.Proofs.Build.Order
import CxxSymbols.Proofs.Build.Store
import CxxSymbols.Proofs.Canonical.Key
import CxxSymbols.Proofs.Canonical.Words
import CxxSymbols.Proofs.Itanium.Clone
import CxxSymbols.Proofs.Itanium.Encoding
import CxxSymbols.Proofs.Itanium.Size.Encoding
import CxxSymbols.Proofs.Search.Query
import CxxSymbols.Proofs.Source.Agreement
import CxxSymbols.Proofs.Store.RoundTrip
import CxxSymbols.Proofs.Store.Distances
import CxxSymbols.Proofs.Store.Numbers
import CxxSymbols.Proofs.Itanium.Expansion
import CxxSymbols.Proofs.Itanium.Progress.Parser
import CxxSymbols.Proofs.Store.Layout
import CxxSymbols.Proofs.Store.Attempts
import CxxSymbols.Proofs.Store.Failure
import CxxSymbols.Proofs.Store.Truncation
import CxxSymbols.Proofs.Itanium.Depth.Bound
import CxxSymbols.Proofs.Itanium.Depth.Packs
import CxxSymbols.Proofs.Store.Bases
import CxxSymbols.Proofs.Store.Coherence
import CxxSymbols.Proofs.Store.Reordering
import CxxSymbols.Proofs.Store.Resumption
import CxxSymbols.Proofs.Build.Refusals
import CxxSymbols.Proofs.Microsoft.Decoration
import CxxSymbols.Proofs.Build.AllOrNothing
import CxxSymbols.Proofs.Itanium.AbiTags
import CxxSymbols.Proofs.Itanium.TagPlaces
import CxxSymbols.Proofs.Canonical.StdAlias
import CxxSymbols.Proofs.Canonical.Family
import CxxSymbols.Proofs.Search.Tokens
import CxxSymbols.Proofs.Search.Joined
import CxxSymbols.Proofs.Search.TypeAhead
import CxxSymbols.Proofs.Search.Insertion
import CxxSymbols.Proofs.Store.Beginnings
import CxxSymbols.Proofs.Search.Grouping
import CxxSymbols.Proofs.Rtti.TypeInfo
import CxxSymbols.Proofs.Rtti.VTable
import CxxSymbols.Proofs.Rtti.Classification
import CxxSymbols.Proofs.Itanium.Places
import CxxSymbols.Proofs.Image.Section
import CxxSymbols.Proofs.Store.Resolution
import CxxSymbols.Proofs.Canonical.WellFormed
import CxxSymbols.Proofs.Source.WellFormed
