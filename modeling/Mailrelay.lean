import Mailrelay.Lib.Run
import Mailrelay.Lib.Table
import Mailrelay.Models
import Mailrelay.Storage.Db
import Mailrelay.Storage.Store
import Mailrelay.Storage.Queue
import Mailrelay.Webhook.Dispatcher
import Mailrelay.Webhook.Queue
import Mailrelay.System.World
import Mailrelay.System.Trans
import Mailrelay.System.Workers
import Mailrelay.System.Effect
import Mailrelay.System.Durability
import Mailrelay.System.Attempts
import Mailrelay.Storage.Batch
import Mailrelay.System.Status
import Mailrelay.System.Shutdown
import Mailrelay.Webhook.Refinement
import Mailrelay.Lib.Text
import Mailrelay.Rules.Engine
import Mailrelay.Smtp.Server
import Mailrelay.Storage.Rules
import Mailrelay.Webui.Reload
import Mailrelay.Smtp.Auth
import Mailrelay.System.Signing
import Mailrelay.Webui.Secrets
import Mailrelay.Lib.Check
import Mailrelay.Webui.Settings
import Mailrelay.Httpauth.Session
import Mailrelay.Lib.Sort
import Mailrelay.Rules.Validate
import Mailrelay.Storage.Restore
import Mailrelay.Lib.Float
import Mailrelay.Lib.Json
import Mailrelay.Rules.Transfer
import Mailrelay.Webui.Preview
import Mailrelay.Webui.Form
import Mailrelay.Webui.Serial
import Mailrelay.System.Files
import Mailrelay.System.Received
import Mailrelay.Lib.Glob
import Mailrelay.Rules.Contains
import Mailrelay.Smtp.Modes
import Mailrelay.System.Retention
import Mailrelay.Webhook.Backoff
import Mailrelay.Httpauth.Redirect
import Mailrelay.Lib.Base64
import Mailrelay.Smtp.Mime
import Mailrelay.Lib.JsonText
import Mailrelay.Webhook.Template
import Mailrelay.Lib.Case
import Mailrelay.Smtp.ArcSeals
import Mailrelay.Smtp.AuthResults
import Mailrelay.Smtp.Addresses
import Mailrelay.Lib.HeaderKey
import Mailrelay.Webhook.Headers
import Mailrelay.Webui.Save
import Mailrelay.Storage.Upsert
import Mailrelay.Webui.Editor
import Mailrelay.Webhook.Overrides
import Mailrelay.Lib.Bytes
import Mailrelay.Webhook.Signature
import Mailrelay.System.Release
import Mailrelay.Http.Csrf
import Mailrelay.Lib.Mux
import Mailrelay.Http.Site
import Mailrelay.Httpauth.Browser
import Mailrelay.Lib.History
import Mailrelay.Smtp.Conversation
import Mailrelay.Lib.Paging
import Mailrelay.Lib.Like
import Mailrelay.Storage.List
import Mailrelay.Webui.List
import Mailrelay.Webui.Events
import Mailrelay.System.Records
import Mailrelay.Lib.Ip
import Mailrelay.Lib.IpNet
import Mailrelay.Webhook.Netguard
import Mailrelay.System.Waiting
import Mailrelay.Lib.MediaType
import Mailrelay.Lib.Path
import Mailrelay.Webui.Download
import Mailrelay.Config.Validate
import Mailrelay.System.Restart
