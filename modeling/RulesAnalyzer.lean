import RulesAnalyzer.AddressBlocks
import RulesAnalyzer.AddressFamily
import RulesAnalyzer.AddressParser
import RulesAnalyzer.Analysis
import RulesAnalyzer.Analyzer
import RulesAnalyzer.Anomaly
import RulesAnalyzer.Application
import RulesAnalyzer.ApplicationFilter
import RulesAnalyzer.BddOptions
import RulesAnalyzer.Buddy.Kernel
import RulesAnalyzer.CachedGroups
import RulesAnalyzer.CheckCommands
import RulesAnalyzer.Comparator
import RulesAnalyzer.Configuration
import RulesAnalyzer.Conflicts
import RulesAnalyzer.Contents
import RulesAnalyzer.Cli.Args
import RulesAnalyzer.Cli.Context
import RulesAnalyzer.Cli.Commands
import RulesAnalyzer.Cli.Scripts
import RulesAnalyzer.Cli.Disabling
import RulesAnalyzer.Csv.Columns
import RulesAnalyzer.Csv.Dialect
import RulesAnalyzer.Csv.Parser
import RulesAnalyzer.Csv.Reader
import RulesAnalyzer.Csv.Stored
import RulesAnalyzer.Definitions
import RulesAnalyzer.Diagram.Apply
import RulesAnalyzer.Diagram.Basic
import RulesAnalyzer.Diagram.Bvec
import RulesAnalyzer.Domain
import RulesAnalyzer.Effect.Following
import RulesAnalyzer.Effect.Program
import RulesAnalyzer.Effect.Triple
import RulesAnalyzer.Effect.Weakest
import RulesAnalyzer.EmptyGroups
import RulesAnalyzer.Endpoint
import RulesAnalyzer.Firewall
import RulesAnalyzer.FirewallFactory
import RulesAnalyzer.FqdnResolver
import RulesAnalyzer.Group
import RulesAnalyzer.GroupHeap
import RulesAnalyzer.History
import RulesAnalyzer.HostFactory
import RulesAnalyzer.HostLoads
import RulesAnalyzer.HostLookups
import RulesAnalyzer.Identifiers
import RulesAnalyzer.Independence
import RulesAnalyzer.Isolation
import RulesAnalyzer.LoadStatistics
import RulesAnalyzer.Masking
import RulesAnalyzer.ClearStars
import RulesAnalyzer.Mnode
import RulesAnalyzer.Mvalue
import RulesAnalyzer.Network
import RulesAnalyzer.Numbers
import RulesAnalyzer.ObjectLoader
import RulesAnalyzer.ObjectStore
import RulesAnalyzer.PacketTester
import RulesAnalyzer.Policy.FirstMatch
import RulesAnalyzer.PolicyReader
import RulesAnalyzer.PoolGraph
import RulesAnalyzer.Predicate
import RulesAnalyzer.PrintedAddress
import RulesAnalyzer.RangeImpl
import RulesAnalyzer.References
import RulesAnalyzer.Resolution
import RulesAnalyzer.Resolver
import RulesAnalyzer.Rule
import RulesAnalyzer.RuleComparison
import RulesAnalyzer.RuleIds
import RulesAnalyzer.Service
import RulesAnalyzer.ServiceGrammar
import RulesAnalyzer.ServiceParser
import RulesAnalyzer.Shared.Blocks
import RulesAnalyzer.Shared.Filling
import RulesAnalyzer.Shared.Hierarchy
import RulesAnalyzer.Shared.Linked
import RulesAnalyzer.Shared.Marking
import RulesAnalyzer.Shared.Meaning
import RulesAnalyzer.Shared.Registry
import RulesAnalyzer.Shared.Traversal
import RulesAnalyzer.Shared.Wildcard
import RulesAnalyzer.Splitting
import RulesAnalyzer.State
import RulesAnalyzer.StoredObjects
import RulesAnalyzer.Symmetry
import RulesAnalyzer.SymmetryCheck
import RulesAnalyzer.TableWriter
import RulesAnalyzer.Uint128
import RulesAnalyzer.UrlPools
import RulesAnalyzer.Verdict
import RulesAnalyzer.WordWrap
import RulesAnalyzer.ZoneFilter
import RulesAnalyzer.ZoneSummary
import RulesAnalyzer.Buddy.NodeTable
import RulesAnalyzer.Buddy.Collection
import RulesAnalyzer.Buddy.UniqueTable
import RulesAnalyzer.Buddy.Refinement
import RulesAnalyzer.Buddy.References
import RulesAnalyzer.Buddy.Initial
import RulesAnalyzer.Buddy.Handles
import RulesAnalyzer.Buddy.BitVectors
import RulesAnalyzer.Buddy.ModelValues
import RulesAnalyzer.Buddy.Primes
import RulesAnalyzer.Buddy.Package
import RulesAnalyzer.DenyAll
