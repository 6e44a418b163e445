import MdbV8.Output.Runs
import MdbV8.Output.Lossless
import MdbV8.Output.Double
import MdbV8.Strings.Flat
import MdbV8.Strings.Emit
import MdbV8.Strings.Depth
import MdbV8.Arrays.FixedArray
import MdbV8.Arrays.JsArray
import MdbV8.Objects.Events
import MdbV8.Objects.Contains
import MdbV8.Functions.Location
import MdbV8.Functions.Iterators
import MdbV8.Functions.Lines
import MdbV8.Functions.Context
import MdbV8.Loading.Discipline
import MdbV8.Print.Unbounded
import MdbV8.Print.Member
import MdbV8.Print.Settings
import MdbV8.Print.Jsprint
import MdbV8.Find.Exact
import MdbV8.Find.Copy
import MdbV8.Objects.FlatExtent
import MdbV8.Objects.Whatis
import MdbV8.Strings.Truncate
import MdbV8.Metadata.Types
import MdbV8.Metadata.Classes
import MdbV8.Tools.JoinOrder
import MdbV8.Output.Bounds
import MdbV8.Objects.Constructor
import MdbV8.Objects.Garbage
import MdbV8.Objects.Subscripts
import MdbV8.Print.ArrayMember
import MdbV8.Print.Rendering
import MdbV8.Functions.SourceLines
import MdbV8.Strings.Json
import MdbV8.Strings.External
import MdbV8.Objects.Layout
import MdbV8.Arrays.BlockSizes
import MdbV8.Functions.Maybesmi
import MdbV8.Metadata.Fields
import MdbV8.Metadata.Fallbacks
import MdbV8.Metadata.Configure
import MdbV8.Functions.ScopeVars
import MdbV8.Objects.JspropWalk
import MdbV8.Tools.DiffStream
import MdbV8.Tools.Printed
import MdbV8.Tools.Mdbv8diff
import MdbV8.Find.Listing
import MdbV8.Stack.Jsstack
import MdbV8.Commands.Restore
import MdbV8.Print.SmallInts
import MdbV8.Find.Closures
import MdbV8.Find.Groups
import MdbV8.Search.Chains
import MdbV8.Objects.RoundTrip
import MdbV8.Print.Renders
import MdbV8.Find.Pipeline
import MdbV8.Find.Statistics
import MdbV8.Print.Jsclosure
import MdbV8.Print.Paths
import MdbV8.Commands.V8scopeinfo
